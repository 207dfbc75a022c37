import N8n.Folders.FolderService
import N8n.Foundations.ParentForest
import N8n.Foundations.Runs

/-!
# Folders form a forest

Following the parents from a folder ends at the root of the project, and a parent
has the project of its child. A call that resolves keeps this exactly when the folder
that becomes a parent is not below the one that moves, or is deleted. The code checks
only that they are not the same.
-/

namespace N8n

open ParentForest Runs

namespace Folders

def parentOf (t : Folders) (folderId : String) : Option String :=
  (t.get? folderId).bind (·.parentFolderId)

structure Forest (t : Folders) : Prop where
  rooted : ∀ folderId ∈ t.keys, Rooted t.parentOf folderId
  sameProject : ∀ folderId folder parent, t.get? folderId = some folder →
    folder.parentFolderId = some parent →
    ∃ parentFolder, t.get? parent = some parentFolder ∧
      parentFolder.homeProject = folder.homeProject

variable {t t' : Folders} {folderId parent projectId x y : String} {folder : Folder}

theorem parentOf_eq_some : t.parentOf x = some y ↔
    ∃ folder, t.get? x = some folder ∧ folder.parentFolderId = some y := by
  rw [parentOf, Option.bind_eq_some_iff]

theorem forest_empty : Forest .empty := ⟨nofun, nofun⟩

namespace Forest

theorem rooted' (h : Forest t) (x : String) : Rooted t.parentOf x := by
  by_cases hx : x ∈ t.keys
  · exact h.rooted x hx
  · refine .root ?_
    rw [parentOf, OrderedMap.get?_eq_none.mpr hx]
    rfl

theorem get?_parent (h : Forest t) (hx : t.get? x = some folder) (hy : t.parentOf x = some y) :
    ∃ parentFolder, t.get? y = some parentFolder ∧
      parentFolder.homeProject = folder.homeProject := by
  obtain ⟨folder', hx', hparent⟩ := parentOf_eq_some.mp hy
  obtain rfl := Option.some.inj (hx.symm.trans hx')
  exact h.sameProject x folder y hx hparent

/-- What a folder is below is there and in the same project. -/
theorem get?_of_below (h : Forest t) (hx : t.get? x = some folder) (hxy : Below t.parentOf x y) :
    ∃ ancestor, t.get? y = some ancestor ∧ ancestor.homeProject = folder.homeProject := by
  induction hxy with
  | refl => exact ⟨folder, hx, rfl⟩
  | tail _ hyz ih =>
    obtain ⟨ancestor, hy, hproject⟩ := ih
    obtain ⟨parentFolder, hz, hproject'⟩ := h.get?_parent hy hyz
    exact ⟨parentFolder, hz, hproject'.trans hproject⟩

end Forest

/-! ### What the calls do when they resolve -/

theorem findOne_ok (h : t.findOneOrFailFolderInProject folderId projectId = .ok folder) :
    t.get? folderId = some folder ∧ folder.homeProject = projectId := by
  rw [findOneOrFailFolderInProject] at h
  split at h
  · cases h
  next found hfound =>
    split_ifs at h with hproject
    obtain rfl := Except.ok.inj h
    exact ⟨hfound, hproject⟩

theorem find_ok (h : t.findFolderInProjectOrFail folderId projectId = .ok folder) :
    t.get? folderId = some folder ∧ folder.homeProject = projectId := by
  rw [findFolderInProjectOrFail] at h
  cases hfind : t.findOneOrFailFolderInProject folderId projectId with
  | error e =>
    rw [hfind] at h
    cases h
  | ok found =>
    rw [hfind] at h
    obtain rfl := Except.ok.inj h
    exact findOne_ok hfind

/-- The folder that becomes the parent, if it is not the root, is in the project. -/
def TargetIn (t : Folders) (projectId : String) (parent : Option String) : Prop :=
  ∀ d, parent = some d → ∃ folder, t.get? d = some folder ∧ folder.homeProject = projectId

theorem findParentFolder_ok {parentFolderId parent : Option String}
    (h : t.findParentFolder parentFolderId projectId = .ok parent) :
    parent = givenId parentFolderId ∧ TargetIn t projectId parent := by
  rw [findParentFolder] at h
  cases hgiven : givenId parentFolderId with
  | none =>
    rw [hgiven] at h
    obtain rfl := Except.ok.inj h
    exact ⟨rfl, nofun⟩
  | some d =>
    rw [hgiven] at h
    obtain ⟨folder, hfind, rfl⟩ := FoldM.map_eq_ok.mp h
    exact ⟨rfl, fun _ hd => Option.some.inj hd ▸ ⟨folder, find_ok hfind⟩⟩

theorem checkParentFolder_ok {find : Folders → String → String → Except FolderError Folder}
    (hfind : ∀ {id folder}, find t id projectId = .ok folder →
      t.get? id = some folder ∧ folder.homeProject = projectId) {id : String}
    (h : checkParentFolder find t id projectId = .ok ()) : TargetIn t projectId (parentAt id) := by
  intro d hd
  rw [parentAt] at hd
  rw [checkParentFolder] at h
  split_ifs at hd h with hroot
  obtain ⟨folder, hfolder, _⟩ := FoldM.map_eq_ok.mp h
  obtain rfl := Option.some.inj hd
  exact ⟨folder, hfind hfolder⟩

theorem createFolder_ok {newId : String} {parentFolderId : Option String}
    (h : t.createFolder newId parentFolderId projectId = .ok t') :
    newId ∉ t.keys ∧ TargetIn t projectId (givenId parentFolderId) ∧
      t' = t.set newId ⟨givenId parentFolderId, projectId⟩ := by
  rw [createFolder] at h
  obtain ⟨parentFolder, hparent, h⟩ := FoldM.bind_eq_ok.mp h
  obtain ⟨rfl, htarget⟩ := findParentFolder_ok hparent
  split_ifs at h with hhas
  exact ⟨fun hmem => hhas (OrderedMap.has_iff.mpr hmem), htarget, (Except.ok.inj h).symm⟩

theorem updateFolder_ok {parentFolderId : Option String}
    (h : t.updateFolder folderId projectId parentFolderId = .ok t') :
    (∃ folder, t.get? folderId = some folder ∧ folder.homeProject = projectId) ∧
      (givenId parentFolderId = none ∧ t' = t ∨
        ∃ id, givenId parentFolderId = some id ∧ TargetIn t projectId (parentAt id) ∧
          t' = t.setParent folderId (parentAt id)) := by
  rw [updateFolder] at h
  obtain ⟨folder, hfolder, h⟩ := FoldM.bind_eq_ok.mp h
  refine ⟨⟨folder, find_ok hfolder⟩, ?_⟩
  cases hgiven : givenId parentFolderId with
  | none =>
    rw [hgiven] at h
    exact Or.inl ⟨rfl, (Except.ok.inj h).symm⟩
  | some id =>
    rw [hgiven] at h
    dsimp only at h
    split_ifs at h with hself
    obtain ⟨_, hcheck, h⟩ := FoldM.bind_eq_ok.mp h
    exact Or.inr ⟨id, rfl, checkParentFolder_ok find_ok hcheck, (Except.ok.inj h).symm⟩

theorem deleteFolder_ok {transferToFolderId : Option String}
    (h : t.deleteFolder folderId projectId transferToFolderId = .ok t') :
    (∃ folder, t.get? folderId = some folder ∧ folder.homeProject = projectId) ∧
      (givenId transferToFolderId = none ∧ t' = t.deleteRow folderId ∨
        ∃ id, givenId transferToFolderId = some id ∧ folderId ≠ id ∧
          TargetIn t projectId (parentAt id) ∧
          t' = (t.moveAllToFolder folderId id).deleteRow folderId) := by
  rw [deleteFolder] at h
  obtain ⟨folder, hfolder, h⟩ := FoldM.bind_eq_ok.mp h
  refine ⟨⟨folder, find_ok hfolder⟩, ?_⟩
  cases hgiven : givenId transferToFolderId with
  | none =>
    rw [hgiven] at h
    exact Or.inl ⟨rfl, (Except.ok.inj h).symm⟩
  | some id =>
    rw [hgiven] at h
    dsimp only at h
    split_ifs at h with hself
    obtain ⟨_, hcheck, h⟩ := FoldM.bind_eq_ok.mp h
    exact Or.inr ⟨id, rfl, hself, checkParentFolder_ok find_ok hcheck, (Except.ok.inj h).symm⟩

theorem transferFolder_ok {ids workflowOwners : List String}
    {sourceFolderId destinationProjectId destinationParentFolderId : String}
    (h : t.transferFolder ids workflowOwners projectId sourceFolderId destinationProjectId
      destinationParentFolderId = .ok t') :
    TargetIn t destinationProjectId (parentAt destinationParentFolderId) ∧
      (∃ folder, t.get? sourceFolderId = some folder ∧ folder.homeProject = projectId) ∧
      t' = t.moveFoldersToDestination sourceFolderId ids destinationProjectId
        destinationParentFolderId := by
  rw [transferFolder] at h
  obtain ⟨_, hcheck, h⟩ := FoldM.bind_eq_ok.mp h
  obtain ⟨folder, hfolder, h⟩ := FoldM.bind_eq_ok.mp h
  split_ifs at h
  exact ⟨checkParentFolder_ok findOne_ok hcheck, ⟨folder, findOne_ok hfolder⟩,
    (Except.ok.inj h).symm⟩

/-! ### New parents -/

theorem parentOf_set (t : Folders) (newId : String) (folder : Folder) (x : String) :
    parentOf (t.set newId folder) x =
      if newId = x then folder.parentFolderId else t.parentOf x := by
  rw [parentOf, OrderedMap.get?_set]
  split_ifs <;> rfl

theorem parentOf_mapWithKey (t : Folders) (g : String → Folder → Folder) (x : String) :
    parentOf (t.mapWithKey g) x = (t.get? x).bind fun folder => (g x folder).parentFolderId := by
  rw [parentOf, OrderedMap.get?_mapWithKey, Option.bind_map]
  rfl

section Moved
variable {g : String → Folder → Folder} {moved : String → Prop} {newParent : Option String}

/-- The folders that are moved get the parent, all others keep theirs. -/
structure Moves (t : Folders) (g : String → Folder → Folder) (moved : String → Prop)
    (newParent : Option String) : Prop where
  there : ∀ x, moved x → x ∈ t.keys
  moves : ∀ x folder, t.get? x = some folder → moved x → (g x folder).parentFolderId = newParent
  stays : ∀ x folder, t.get? x = some folder → ¬ moved x →
    (g x folder).parentFolderId = folder.parentFolderId

theorem Moves.parentOf_moved (h : Moves t g moved newParent) (hx : moved x) :
    parentOf (t.mapWithKey g) x = newParent := by
  obtain ⟨folder, hfolder⟩ := OrderedMap.exists_get?_of_mem_keys (h.there x hx)
  rw [parentOf_mapWithKey, hfolder, Option.bind_some, h.moves x folder hfolder hx]

theorem Moves.parentOf_stays (h : Moves t g moved newParent) (hx : ¬ moved x) :
    parentOf (t.mapWithKey g) x = t.parentOf x := by
  rw [parentOf_mapWithKey, parentOf]
  cases hfolder : t.get? x with
  | none => rfl
  | some folder =>
    rw [Option.bind_some, Option.bind_some]
    exact h.stays x folder hfolder hx

theorem Forest.mapWithKey (h : Forest t) (hmoves : Moves t g moved newParent)
    (hfree : ∀ d, newParent = some d → ∀ m, moved m → ¬ Below t.parentOf d m)
    (hproject : ∀ x folder y, t.get? x = some folder → (g x folder).parentFolderId = some y →
      ∃ parentFolder, t.get? y = some parentFolder ∧
        (g y parentFolder).homeProject = (g x folder).homeProject) :
    Forest (t.mapWithKey g) := by
  constructor
  · intro x _
    have hstay : ∀ y, ¬ moved y → parentOf (t.mapWithKey g) y = t.parentOf y :=
      fun y hy => hmoves.parentOf_stays hy
    refine rooted_of_moved hstay (fun y hy => ?_) (h.rooted' x)
    rw [hmoves.parentOf_moved hy]
    cases hd : newParent with
    | none => exact Or.inl rfl
    | some d => exact Or.inr ⟨d, rfl, h.rooted' d, hfree d hd⟩
  · intro x folder y hx hy
    rw [OrderedMap.get?_mapWithKey] at hx
    obtain ⟨folder', hx', rfl⟩ := Option.map_eq_some_iff.mp hx
    obtain ⟨parentFolder, hparent, hsame⟩ := hproject x folder' y hx' hy
    exact ⟨g y parentFolder, by rw [OrderedMap.get?_mapWithKey, hparent, Option.map_some], hsame⟩

theorem Moves.not_rooted {d m : String} (hmoves : Moves t g moved newParent)
    (hd : newParent = some d) (hm : moved m) (hdm : Below t.parentOf d m) : ∃ m, moved m ∧ ¬ Rooted (parentOf (t.mapWithKey g)) m := by
  have hstay : ∀ y, ¬ moved y → parentOf (t.mapWithKey g) y = t.parentOf y :=
    fun y hy => hmoves.parentOf_stays hy
  obtain ⟨m, hm, _, hnot⟩ := exists_not_rooted hstay
    (fun y hy => (hmoves.parentOf_moved hy).trans hd) hm hdm
  exact ⟨m, hm, hnot⟩

end Moved

/-! ### Deleted rows -/

def NoOrphans (t : Folders) : Prop := ∀ x folder, t.get? x = some folder → t.isOrphan folder = false

theorem Forest.noOrphans (h : Forest t) : NoOrphans t := by
  intro x folder hx
  rw [isOrphan]
  cases hparent : folder.parentFolderId with
  | none => rfl
  | some y =>
    obtain ⟨parentFolder, hy, _⟩ := h.sameProject x folder y hx hparent
    simp [OrderedMap.has, hy]

theorem NoOrphans.get?_parent (h : NoOrphans t) (hx : t.get? x = some folder)
    (hy : folder.parentFolderId = some y) : ∃ parentFolder, t.get? y = some parentFolder := by
  have horphan := h x folder hx
  rw [isOrphan, hy] at horphan
  simpa [OrderedMap.has, Option.isSome_iff_exists] using horphan

theorem Forest.of_sub (h : Forest t)
    (hsub : ∀ x folder, t'.get? x = some folder → t.get? x = some folder)
    (hclosed : NoOrphans t') : Forest t' := by
  have hthere : ∀ {x y : String}, Below t.parentOf x y → x ∈ t'.keys → y ∈ t'.keys := by
    intro x y hxy hx
    induction hxy with
    | refl => exact hx
    | tail _ hyz ih =>
      obtain ⟨folder, hfolder⟩ := OrderedMap.exists_get?_of_mem_keys ih
      obtain ⟨folder', hfolder', hz⟩ := parentOf_eq_some.mp hyz
      obtain rfl := Option.some.inj ((hsub _ _ hfolder).symm.trans hfolder')
      obtain ⟨parentFolder, hparent⟩ := hclosed.get?_parent hfolder hz
      exact OrderedMap.mem_keys_of_get? hparent
  constructor
  · intro x hx
    refine rooted_congr (fun y hy => ?_) (h.rooted' x)
    obtain ⟨folder, hfolder⟩ := OrderedMap.exists_get?_of_mem_keys (hthere hy hx)
    rw [parentOf, parentOf, hfolder, hsub y folder hfolder]
  · intro x folder y hx hy
    obtain ⟨parentFolder, hparent⟩ := hclosed.get?_parent hx hy
    obtain ⟨parentFolder', hparent', hproject⟩ := h.sameProject x folder y (hsub x folder hx) hy
    obtain rfl := Option.some.inj ((hsub y parentFolder hparent).symm.trans hparent')
    exact ⟨parentFolder, hparent, hproject⟩

theorem withoutOrphans_sub {n : ℕ} (h : (withoutOrphans n t).get? x = some folder) :
    t.get? x = some folder := by
  induction n generalizing t with
  | zero => exact h
  | succ n ih => exact (OrderedMap.get?_filter_of_some (ih h)).1

theorem withoutOrphans_of_noOrphans (h : NoOrphans t) (n : ℕ) : withoutOrphans n t = t := by
  induction n with
  | zero => rfl
  | succ n ih =>
    have hall : t.filter (fun _ folder => !t.isOrphan folder) = t := by
      refine OrderedMap.ext (List.filter_eq_self.mpr fun e he => ?_)
      have horphan := h e.1 e.2 (OrderedMap.get?_eq_some.mpr he)
      simp only [horphan, Bool.not_false]
    rw [withoutOrphans, hall, ih]

theorem noOrphans_withoutOrphans {n : ℕ} (h : t.size ≤ n) : NoOrphans (withoutOrphans n t) := by
  induction n generalizing t with
  | zero =>
    intro x folder hx
    have hmem := OrderedMap.get?_eq_some.mp hx
    rw [withoutOrphans, List.length_eq_zero_iff.mp (Nat.le_zero.mp h)] at hmem
    cases hmem
  | succ n ih =>
    by_cases hall : NoOrphans t
    · rw [withoutOrphans_of_noOrphans hall]
      exact hall
    · refine ih (Nat.le_of_lt_succ (Nat.lt_of_lt_of_le ?_ h))
      -- a row that is an orphan is dropped
      refine Nat.lt_of_le_of_ne (List.length_filter_le _ _) fun hsize => hall fun x folder hx => ?_
      have hkept := List.length_filter_eq_length_iff.mp hsize (x, folder)
        (OrderedMap.get?_eq_some.mp hx)
      simpa using hkept

theorem Forest.deleteRow (h : Forest t) (folderId : String) : Forest (t.deleteRow folderId) := by
  refine h.of_sub (fun x folder hx => ?_)
    (noOrphans_withoutOrphans (List.length_filter_le _ _))
  have hdelete := withoutOrphans_sub hx
  rw [OrderedMap.get?_delete] at hdelete
  split_ifs at hdelete
  exact hdelete

/-! ### The recursive query -/

theorem mem_subFolders {parents : List String} : x ∈ t.subFolders projectId parents ↔
    ∃ folder, t.get? x = some folder ∧ (projectId = "" ∨ folder.homeProject = projectId) ∧
      ∃ y ∈ parents, folder.parentFolderId = some y := by
  rw [subFolders, List.mem_map]
  constructor
  · rintro ⟨⟨id, folder⟩, he, rfl⟩
    obtain ⟨he, hcond⟩ := List.mem_filter.mp he
    rw [Bool.and_eq_true, decide_eq_true_eq, Option.any_eq_true] at hcond
    obtain ⟨hproject, y, hy, hmem⟩ := hcond
    exact ⟨folder, OrderedMap.get?_eq_some.mpr he, hproject, y, by simpa using hmem, hy⟩
  · rintro ⟨folder, hx, hproject, y, hmem, hy⟩
    refine ⟨(x, folder), List.mem_filter.mpr ⟨OrderedMap.get?_eq_some.mp hx, ?_⟩, rfl⟩
    rw [Bool.and_eq_true, decide_eq_true_eq, Option.any_eq_true]
    exact ⟨hproject, y, hy, by simpa using hmem⟩

theorem mem_subFolders_singleton : x ∈ t.subFolders projectId [y] ↔
    ∃ folder, t.get? x = some folder ∧ (projectId = "" ∨ folder.homeProject = projectId) ∧
      folder.parentFolderId = some y := by
  rw [mem_subFolders]
  simp

theorem parentOf_of_mem_subFolders {parents : List String}
    (h : x ∈ t.subFolders projectId parents) : ∃ y ∈ parents, t.parentOf x = some y := by
  obtain ⟨folder, hx, _, y, hy, hparent⟩ := mem_subFolders.mp h
  exact ⟨y, hy, parentOf_eq_some.mpr ⟨folder, hx, hparent⟩⟩

theorem exists_depth_bound (h : Forest t) :
    ∃ bound, ∀ x ∈ t.keys, ∀ n, Depth t.parentOf x n → n ≤ bound := by
  have hlist : ∀ l : List String, ∃ bound, ∀ x ∈ l, ∀ n, Depth t.parentOf x n → n ≤ bound := by
    intro l
    induction l with
    | nil => exact ⟨0, nofun⟩
    | cons a l ih =>
      obtain ⟨bound, hbound⟩ := ih
      obtain ⟨m, hm⟩ := h.rooted' a
      refine ⟨max m bound, fun x hx n hn => ?_⟩
      rcases List.mem_cons.mp hx with rfl | hx
      · exact (hn.unique hm) ▸ Nat.le_max_left _ _
      · exact Nat.le_trans (hbound x hx n hn) (Nat.le_max_right _ _)
  exact hlist t.keys

/-- The levels get deeper, so the query ends. -/
theorem Forest.folderTree_ends {bound : ℕ}
    (hbound : ∀ x ∈ t.keys, ∀ n, Depth t.parentOf x n → n ≤ bound) {rounds depth : ℕ}
    {level : List String} (hkeys : ∀ x ∈ level, x ∈ t.keys)
    (hdepth : ∀ x ∈ level, Depth t.parentOf x depth) (hrounds : bound < rounds + depth) :
    ∃ ids, t.folderTree projectId (rounds + 1) level = some ids := by
  induction rounds generalizing level depth with
  | zero =>
    cases level with
    | nil => exact ⟨[], rfl⟩
    | cons x level =>
      have hle := hbound x (hkeys x List.mem_cons_self) depth (hdepth x List.mem_cons_self)
      omega
  | succ rounds ih =>
    cases level with
    | nil => exact ⟨[], rfl⟩
    | cons a level =>
      have hnext : ∀ x ∈ t.subFolders projectId (a :: level), Depth t.parentOf x (depth + 1) := by
        intro x hx
        obtain ⟨y, hy, hparent⟩ := parentOf_of_mem_subFolders hx
        exact .step hparent (hdepth y hy)
      have hthere : ∀ x ∈ t.subFolders projectId (a :: level), x ∈ t.keys := by
        intro x hx
        obtain ⟨folder, hfolder, _⟩ := mem_subFolders.mp hx
        exact OrderedMap.mem_keys_of_get? hfolder
      obtain ⟨ids, hids⟩ := ih hthere hnext (by omega)
      exact ⟨a :: level ++ ids, by rw [folderTree, hids]; rfl⟩

theorem Forest.queryEnds (h : Forest t) (folderId projectId : String) :
    ∃ ids, t.AllFolderIdsInHierarchy folderId projectId ids := by
  obtain ⟨bound, hbound⟩ := exists_depth_bound h
  obtain ⟨n, hn⟩ := h.rooted' folderId
  have hdepth : ∀ x ∈ t.subFolders projectId [folderId], Depth t.parentOf x (n + 1) := by
    intro x hx
    obtain ⟨y, hy, hparent⟩ := parentOf_of_mem_subFolders hx
    exact .step hparent (List.mem_singleton.mp hy ▸ hn)
  have hthere : ∀ x ∈ t.subFolders projectId [folderId], x ∈ t.keys := by
    intro x hx
    obtain ⟨folder, hfolder, _⟩ := mem_subFolders.mp hx
    exact OrderedMap.mem_keys_of_get? hfolder
  obtain ⟨ids, hids⟩ := Forest.folderTree_ends hbound hthere hdepth
    (show bound < bound + (n + 1) by omega)
  exact ⟨ids, bound + 1, hids⟩

theorem folderTree_spec {rounds : ℕ} {level ids : List String}
    (h : t.folderTree projectId rounds level = some ids) :
    (∀ x ∈ level, x ∈ ids) ∧ (∀ x ∈ ids, ∃ y ∈ level, Below t.parentOf x y) ∧
      ∀ y ∈ ids, ∀ x ∈ t.subFolders projectId [y], x ∈ ids := by
  induction rounds generalizing level ids with
  | zero => cases h
  | succ rounds ih =>
    cases level with
    | nil =>
      obtain rfl := Option.some.inj h
      exact ⟨nofun, nofun, nofun⟩
    | cons a level =>
      rw [folderTree] at h
      obtain ⟨rest, hrest, rfl⟩ := Option.map_eq_some_iff.mp h
      obtain ⟨hlevel, hbelow, hclosed⟩ := ih hrest
      refine ⟨fun x hx => List.mem_append_left _ hx, fun x hx => ?_, fun y hy x hx => ?_⟩
      · rcases List.mem_append.mp hx with hx | hx
        · exact ⟨x, hx, .refl⟩
        · obtain ⟨z, hz, hxz⟩ := hbelow x hx
          obtain ⟨y, hy, hparent⟩ := parentOf_of_mem_subFolders hz
          exact ⟨y, hy, hxz.tail hparent⟩
      · refine List.mem_append_right _ ?_
        rcases List.mem_append.mp hy with hy | hy
        · obtain ⟨folder, hfolder, hproject, hparent⟩ := mem_subFolders_singleton.mp hx
          exact hlevel x (mem_subFolders.mpr ⟨folder, hfolder, hproject, y, hy, hparent⟩)
        · exact hclosed y hy x hx

/-- The query comes back with the folders below the sub-folders. -/
theorem Forest.mem_hierarchy (h : Forest t) (hfolder : t.get? folderId = some folder)
    (hproject : folder.homeProject = projectId) {ids : List String}
    (hids : t.AllFolderIdsInHierarchy folderId projectId ids) :
    x ∈ ids ↔ ∃ z, t.parentOf z = some folderId ∧ Below t.parentOf x z := by
  obtain ⟨rounds, hrounds⟩ := hids
  obtain ⟨hlevel, hbelow, hclosed⟩ := folderTree_spec hrounds
  constructor
  · intro hx
    obtain ⟨z, hz, hxz⟩ := hbelow x hx
    obtain ⟨y, hy, hparent⟩ := parentOf_of_mem_subFolders hz
    exact ⟨z, List.mem_singleton.mp hy ▸ hparent, hxz⟩
  · rintro ⟨z, hz, hxz⟩
    -- every folder below one of the project is in the project
    have hsub : ∀ {x y : String}, t.parentOf x = some y → Below t.parentOf y folderId →
        x ∈ t.subFolders projectId [y] := by
      intro x y hparent hy
      obtain ⟨child, hchild, hchildParent⟩ := parentOf_eq_some.mp hparent
      obtain ⟨top, htop, hsame⟩ := h.get?_of_below hchild (hy.head hparent)
      obtain rfl := Option.some.inj (hfolder.symm.trans htop)
      exact mem_subFolders_singleton.mpr
        ⟨child, hchild, Or.inr (hsame.symm.trans hproject), hchildParent⟩
    induction hxz using Relation.ReflTransGen.head_induction_on with
    | refl => exact hlevel z (hsub hz .refl)
    | @head x w hxw hwz ih => exact hclosed w ih x (hsub hxw (hwz.tail hz))

end Folders
end N8n
