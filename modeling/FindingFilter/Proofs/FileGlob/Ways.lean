import FindingFilter.Proofs.FileGlob.Levels

/-!
# File patterns — the ways of a pattern through a tree

On its way through a tree a pattern has some parts left and stands at a place (`Stage`). The first of
these parts may lead on to several stages (`LeadsTo`). So the paths that a pattern names are those at
the ends of its ways (`FileGlob.Names`), and the directories that it looks into are those that a stage
on one of its ways has to list (`FileGlob.LooksInto`), whether or not they can be listed.

* **`meets_or_leadsTo_of_mem_follow`** — what is come upon from a stage on, for one part;
* **`mem_follow_iff`** — what is come upon from a stage on is what is met on the ways from there;
* **`FileGlob.ok_mem_items_iff`**, **`FileGlob.error_mem_items_iff`** — a pattern comes upon the paths
  that it names, and upon the failures of the directories that it looks into, and upon nothing else.
-/

namespace FindingFilter.FileGlob

variable {tree : FileTree}

/-! ## The ways of a pattern -/

/-- Where a pattern is on its way: the parts that are left, and the place. -/
abbrev Stage := List Part × Place

/-- The first part that is left leads on to another stage. -/
inductive LeadsTo (tree : FileTree) : Stage → Stage → Prop where
  | name {text : String} {rest : List Part} {place : Place} (h : leadsOn tree place text = true) :
      LeadsTo tree (.name text :: rest, place) (rest, placeAt tree (childPath place.path text))
  /-- To `.` and `..`, which are tried in a directory that is listed. -/
  | dots {tokens : List Token} {rest : List Part} {place : Place} {children : List Child}
      {name : String} (hdirectory : place.isDirectory = true)
      (hchildren : childrenOf tree place.path = .ok children) (hname : name ∈ dotNames tokens) :
      LeadsTo tree (.names tokens :: rest, place) (rest, placeAt tree (Path.join place.path name))
  | names {tokens : List Token} {rest : List Part} {place : Place} {child : Child}
      (hchild : IsIn tree place child) (hcovers : covers tokens child.name.toList = true) :
      LeadsTo tree (.names tokens :: rest, place) (rest, child.toPlace)
  | anyDepth {part : Part} {rest : List Part} {place lower : Place} {child : Child}
      (hlower : IsUnder tree place lower) (hchild : IsIn tree lower child)
      (hnamed : part.isNamed child.name = true) :
      LeadsTo tree (.anyDepth :: part :: rest, place) (rest, child.toPlace)

/-- The directory is one that the first part has to list. -/
inductive LooksAt (tree : FileTree) : Stage → Place → Prop where
  | names {tokens : List Token} {rest : List Part} {place : Place}
      (hdirectory : place.isDirectory = true) : LooksAt tree (.names tokens :: rest, place) place
  | anyDepth {rest : List Part} {place lower : Place} (hlower : IsUnder tree place lower)
      (hdirectory : lower.isDirectory = true) : LooksAt tree (.anyDepth :: rest, place) lower

/-- The way ends here, with this path. -/
inductive EndsWith (tree : FileTree) (onlyDirectories : Bool) : Stage → String → Prop where
  | here {place : Place} (h : onlyDirectories = true → place.isDirectory = true) :
      EndsWith tree onlyDirectories ([], place) place.path
  | anyDepth {place lower : Place} {child : Child} (hlower : IsUnder tree place lower)
      (hchild : IsIn tree lower child) (hdirectory : child.isDirectory = true) :
      EndsWith tree onlyDirectories ([.anyDepth], place) child.path

/-- What is met at a stage itself: the path with which the way ends there, or the failure of a
directory. -/
inductive Meets (tree : FileTree) (onlyDirectories : Bool) (stage : Stage) : Item → Prop where
  | path {path : String} (h : EndsWith tree onlyDirectories stage path) :
      Meets tree onlyDirectories stage (.ok path)
  | failure {place : Place} {cause : FileError} (h : LooksAt tree stage place)
      (hrefused : tree.listing place.path = .error cause) :
      Meets tree onlyDirectories stage (.error cause)

section Follow

variable {onlyDirectories : Bool} {item : Item}

theorem mem_inside_of_isSealed {place : Place} {cause : FileError} {visit : List Child → List Item}
    (h : IsSealed tree place cause) : .error cause ∈ inside tree place visit :=
  mem_inside_iff.mpr (Or.inr ⟨cause, h, rfl⟩)

theorem mem_follow_of_meets {stage : Stage} (h : Meets tree onlyDirectories stage item) :
    item ∈ follow tree onlyDirectories stage.1 stage.2 := by
  cases h with
  | path h =>
    cases h with
    | here h =>
      rw [follow, if_neg (by simpa using h)]
      exact List.mem_singleton_self _
    | anyDepth hlower hchild hdirectory =>
      rw [follow, mem_allBelow_iff]
      refine ⟨_, hlower, mem_inside_flatMap_iff.mpr (Or.inl ⟨_, hchild, ?_⟩)⟩
      rw [if_pos hdirectory]
      exact List.mem_singleton_self _
  | failure h hrefused =>
    cases h with
    | names hdirectory =>
      rw [follow]
      exact mem_inside_of_isSealed ⟨hdirectory, hrefused⟩
    | @anyDepth rest _ _ hlower hdirectory =>
      -- At the end of a pattern `**` is followed in another way, but it lists the same directories.
      cases rest with
      | nil =>
        rw [follow, mem_allBelow_iff]
        exact ⟨_, hlower, mem_inside_of_isSealed ⟨hdirectory, hrefused⟩⟩
      | cons part rest =>
        rw [follow, mem_allBelow_iff]
        exact ⟨_, hlower, mem_inside_of_isSealed ⟨hdirectory, hrefused⟩⟩

theorem mem_follow_of_leadsTo {stage next : Stage} (h : LeadsTo tree stage next)
    (hitem : item ∈ follow tree onlyDirectories next.1 next.2) :
    item ∈ follow tree onlyDirectories stage.1 stage.2 := by
  cases h with
  | name h => rwa [follow, if_pos h]
  | dots hdirectory hchildren hname =>
    rw [follow, mem_inside_iff]
    refine Or.inl ⟨hdirectory, _, hchildren, List.mem_append_left _ ?_⟩
    exact List.mem_flatMap.mpr ⟨_, hname, hitem⟩
  | names hchild hcovers =>
    obtain ⟨hdirectory, children, hchildren, hmem⟩ := hchild
    rw [follow, mem_inside_iff]
    refine Or.inl ⟨hdirectory, _, hchildren, List.mem_append_right _ ?_⟩
    exact List.mem_flatMap.mpr ⟨_, List.mem_filter.mpr ⟨hmem, hcovers⟩, hitem⟩
  | anyDepth hlower hchild hnamed =>
    rw [follow, mem_allBelow_iff]
    refine ⟨_, hlower, mem_inside_flatMap_iff.mpr (Or.inl ⟨_, hchild, ?_⟩)⟩
    rwa [if_pos hnamed]

/-- What a search below a place comes upon is the failure of a directory, or what a child there leads
to. -/
theorem failure_or_child_of_mem_allBelow {visit : Child → List Item} {rest : List Part}
    {place : Place} (h : item ∈ allBelow tree visit place) :
    Meets tree onlyDirectories (.anyDepth :: rest, place) item ∨
      ∃ lower child, IsUnder tree place lower ∧ IsIn tree lower child ∧ item ∈ visit child := by
  obtain ⟨lower, hlower, hitem⟩ := mem_allBelow_iff.mp h
  rcases mem_inside_flatMap_iff.mp hitem with ⟨child, hchild, hitem⟩ | ⟨cause, hsealed, rfl⟩
  · exact Or.inr ⟨lower, child, hlower, hchild, hitem⟩
  · exact Or.inl (.failure (.anyDepth hlower hsealed.isDirectory) hsealed.refused)

/-- What is come upon from a stage on is met there, or come upon from where the first part leads. -/
theorem meets_or_leadsTo_of_mem_follow {parts : List Part} {place : Place}
    (h : item ∈ follow tree onlyDirectories parts place) :
    Meets tree onlyDirectories (parts, place) item ∨
      ∃ next, LeadsTo tree (parts, place) next ∧
        item ∈ follow tree onlyDirectories next.1 next.2 := by
  match parts with
  | [] =>
    rw [follow] at h
    split at h
    · cases h
    next hhere =>
      obtain rfl := List.mem_singleton.mp h
      exact Or.inl (.path (.here (by simpa using hhere)))
  | .name text :: rest =>
    rw [follow] at h
    split at h
    next hleads => exact Or.inr ⟨_, .name hleads, h⟩
    · cases h
  | .names tokens :: rest =>
    rw [follow, mem_inside_iff] at h
    rcases h with ⟨hdirectory, children, hchildren, h⟩ | ⟨cause, hsealed, rfl⟩
    · rcases List.mem_append.mp h with h | h
      · obtain ⟨name, hname, h⟩ := List.mem_flatMap.mp h
        exact Or.inr ⟨_, .dots hdirectory hchildren hname, h⟩
      · obtain ⟨child, hchild, h⟩ := List.mem_flatMap.mp h
        obtain ⟨hmem, hcovers⟩ := List.mem_filter.mp hchild
        exact Or.inr ⟨_, .names ⟨hdirectory, children, hchildren, hmem⟩ hcovers, h⟩
    · exact Or.inl (.failure (.names hsealed.isDirectory) hsealed.refused)
  | [.anyDepth] =>
    rw [follow] at h
    rcases failure_or_child_of_mem_allBelow h with h | ⟨lower, child, hlower, hchild, h⟩
    · exact Or.inl h
    · split at h
      next hdirectory =>
        obtain rfl := List.mem_singleton.mp h
        exact Or.inl (.path (.anyDepth hlower hchild hdirectory))
      · cases h
  | .anyDepth :: part :: rest =>
    rw [follow] at h
    rcases failure_or_child_of_mem_allBelow h with h | ⟨lower, child, hlower, hchild, h⟩
    · exact Or.inl h
    · split at h
      next hnamed => exact Or.inr ⟨_, .anyDepth hlower hchild hnamed, h⟩
      · cases h

/-- A part that leads on is left behind. -/
theorem LeadsTo.length_lt {stage next : Stage} (h : LeadsTo tree stage next) :
    next.1.length < stage.1.length := by
  cases h with
  | anyDepth => exact Nat.lt_add_of_pos_right Nat.two_pos
  | _ => exact Nat.lt_succ_self _

/-- **What is come upon from a stage on** is what is met on the ways from there. -/
theorem mem_follow_iff (stage : Stage) :
    item ∈ follow tree onlyDirectories stage.1 stage.2 ↔
      ∃ last, Relation.ReflTransGen (LeadsTo tree) stage last ∧
        Meets tree onlyDirectories last item := by
  constructor
  · intro hitem
    -- Each step leaves fewer parts, though not always one less: `**` takes the next part with it.
    induction hlength : stage.1.length using Nat.strongRecOn generalizing stage with
    | ind length ih =>
      rcases meets_or_leadsTo_of_mem_follow hitem with hmeets | ⟨next, hnext, hitem⟩
      · exact ⟨stage, .refl, hmeets⟩
      · obtain ⟨last, hlast, hmeets⟩ := ih _ (hlength ▸ hnext.length_lt) next hitem rfl
        exact ⟨last, .head hnext hlast, hmeets⟩
  · rintro ⟨last, hlast, hmeets⟩
    induction hlast using Relation.ReflTransGen.head_induction_on with
    | refl => exact mem_follow_of_meets hmeets
    | head hnext _ ih => exact mem_follow_of_leadsTo hnext ih

end Follow

/-! ## What a pattern comes upon -/

section Items

variable {glob : FileGlob}

/-- The pattern comes to this stage on one of its ways. A pattern without parts goes nowhere. -/
def ComesTo (glob : FileGlob) (tree : FileTree) (stage : Stage) : Prop :=
  glob.parts ≠ [] ∧ Relation.ReflTransGen (LeadsTo tree) (glob.parts, glob.start tree) stage

/-- The pattern names the path. -/
def Names (glob : FileGlob) (tree : FileTree) (path : String) : Prop :=
  ∃ stage, glob.ComesTo tree stage ∧ EndsWith tree glob.onlyDirectories stage path

/-- The pattern has to list the directory at this path. -/
def LooksInto (glob : FileGlob) (tree : FileTree) (directory : String) : Prop :=
  ∃ stage place, glob.ComesTo tree stage ∧ LooksAt tree stage place ∧ place.path = directory

theorem mem_items_iff {item : Item} :
    item ∈ glob.items tree ↔
      ∃ stage, glob.ComesTo tree stage ∧ Meets tree glob.onlyDirectories stage item := by
  rw [items]
  split
  next hempty =>
    have hnone : glob.parts = [] := List.isEmpty_iff.mp hempty
    constructor
    · exact fun hmem => absurd hmem List.not_mem_nil
    · rintro ⟨stage, ⟨hsome, -⟩, -⟩
      exact absurd hnone hsome
  next hsome =>
    have hne : glob.parts ≠ [] := fun hnone => hsome (List.isEmpty_iff.mpr hnone)
    rw [mem_follow_iff (glob.parts, glob.start tree)]
    simp only [ComesTo, hne, ne_eq, not_false_eq_true, true_and]

/-- **A pattern comes upon the paths that it names.** -/
theorem ok_mem_items_iff {path : String} : .ok path ∈ glob.items tree ↔ glob.Names tree path := by
  rw [mem_items_iff]
  constructor
  · rintro ⟨stage, hcomes, ⟨hends⟩⟩
    exact ⟨stage, hcomes, hends⟩
  · rintro ⟨stage, hcomes, hends⟩
    exact ⟨stage, hcomes, .path hends⟩

/-- **A pattern comes upon the failures of the directories that it looks into.** -/
theorem error_mem_items_iff {cause : FileError} :
    .error cause ∈ glob.items tree ↔
      ∃ directory, glob.LooksInto tree directory ∧ tree.listing directory = .error cause := by
  rw [mem_items_iff]
  constructor
  · rintro ⟨stage, hcomes, hmeets⟩
    cases hmeets with
    | failure hlooks hrefused => exact ⟨_, ⟨stage, _, hcomes, hlooks, rfl⟩, hrefused⟩
  · rintro ⟨_, ⟨stage, place, hcomes, hlooks, rfl⟩, hrefused⟩
    exact ⟨stage, hcomes, .failure hlooks hrefused⟩

end Items

end FindingFilter.FileGlob
