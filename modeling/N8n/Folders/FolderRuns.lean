import N8n.Folders.FolderForest

/-!
# Calls on folders, one after the other

From no folders on, the folders stay a forest exactly as long as no call puts a folder
below itself, or the contents of a folder below one of its sub-folders.
-/

namespace N8n

open ParentForest Runs

namespace Folders

variable {t t' : Folders} {folderId projectId x : String}

theorem Forest.createFolder (h : Forest t) {newId : String} {parentFolderId : Option String}
    (hok : t.createFolder newId parentFolderId projectId = .ok t') : Forest t' := by
  obtain ⟨hnew, htarget, rfl⟩ := createFolder_ok hok
  -- a folder that is there is not the new one
  have hne : ∀ {y folder}, t.get? y = some folder → newId ≠ y := by
    rintro y folder hy rfl
    exact hnew (OrderedMap.mem_keys_of_get? hy)
  constructor
  · intro x _
    have hstay : ∀ y, ¬ y = newId →
        parentOf (t.set newId ⟨givenId parentFolderId, projectId⟩) y = t.parentOf y := by
      intro y hy
      rw [parentOf_set, if_neg (Ne.symm hy)]
    refine rooted_of_moved hstay (fun y hy => ?_) (h.rooted' x)
    rw [parentOf_set, if_pos hy.symm]
    cases hd : givenId parentFolderId with
    | none => exact Or.inl rfl
    | some d =>
      refine Or.inr ⟨d, rfl, h.rooted' d, ?_⟩
      rintro m rfl hdm
      obtain ⟨folder, hfolder, _⟩ := htarget d hd
      obtain ⟨ancestor, hancestor, _⟩ := h.get?_of_below hfolder hdm
      exact hne hancestor rfl
  · intro x folder y hx hy
    rw [OrderedMap.get?_set] at hx
    split_ifs at hx with hxnew
    · obtain rfl := Option.some.inj hx
      obtain ⟨parentFolder, hparent, hproject⟩ := htarget y hy
      exact ⟨parentFolder, by rw [OrderedMap.get?_set_of_ne (hne hparent), hparent], hproject⟩
    · obtain ⟨parentFolder, hparent, hproject⟩ := h.sameProject x folder y hx hy
      exact ⟨parentFolder, by rw [OrderedMap.get?_set_of_ne (hne hparent), hparent], hproject⟩

/-! ### One folder gets a new parent -/

theorem moves_setParent (hfolder : folderId ∈ t.keys) (parent : Option String) :
    Moves t (fun id folder => if id = folderId then { folder with parentFolderId := parent }
      else folder) (· = folderId) parent where
  there x hx := hx ▸ hfolder
  moves x folder _ hx := by rw [if_pos hx]
  stays x folder _ hx := by rw [if_neg hx]

theorem Forest.setParent (h : Forest t) {folder : Folder} (hfolder : t.get? folderId = some folder)
    {parent : Option String} (htarget : TargetIn t folder.homeProject parent)
    (hfree : ∀ d, parent = some d → ¬ Below t.parentOf d folderId) :
    Forest (t.setParent folderId parent) := by
  refine h.mapWithKey (moves_setParent (OrderedMap.mem_keys_of_get? hfolder) parent) ?_ ?_
  · rintro d hd m rfl
    exact hfree d hd
  · intro x folder' y hx hy
    have hsame : ∀ z (f : Folder), (if z = folderId then { f with parentFolderId := parent }
        else f).homeProject = f.homeProject := by
      intro z f
      split_ifs <;> rfl
    simp only [hsame]
    split_ifs at hy with hxf
    · subst hxf
      obtain rfl := Option.some.inj (hfolder.symm.trans hx)
      exact htarget y hy
    · exact h.sameProject x folder' y hx hy

/-! ### The contents of a folder move -/

theorem moves_moveAllToFolder (t : Folders) (folderId : String) (id : String) :
    Moves t (fun _ folder => if folder.parentFolderId = some folderId then
      { folder with parentFolderId := parentAt id } else folder)
      (fun x => t.parentOf x = some folderId) (parentAt id) where
  there x hx := by
    obtain ⟨folder, hfolder, _⟩ := parentOf_eq_some.mp hx
    exact OrderedMap.mem_keys_of_get? hfolder
  moves x folder hfolder hx := by
    rw [parentOf, hfolder, Option.bind_some] at hx
    rw [if_pos hx]
  stays x folder hfolder hx := by
    rw [parentOf, hfolder, Option.bind_some] at hx
    rw [if_neg hx]

theorem Forest.moveAllToFolder (h : Forest t) {folder : Folder}
    (hfolder : t.get? folderId = some folder) {id : String}
    (htarget : TargetIn t folder.homeProject (parentAt id))
    (hfree : ∀ d, parentAt id = some d → ¬ Below t.parentOf d folderId) :
    Forest (t.moveAllToFolder folderId id) := by
  refine h.mapWithKey (moves_moveAllToFolder t folderId id) ?_ ?_
  · intro d hd m hm hdm
    exact hfree d hd (hdm.tail hm)
  · intro x folder' y hx hy
    have hsame : ∀ f : Folder, (if f.parentFolderId = some folderId then
        { f with parentFolderId := parentAt id } else f).homeProject = f.homeProject := by
      intro f
      split_ifs <;> rfl
    simp only [hsame]
    split_ifs at hy with hchild
    · obtain ⟨top, htop, hproject⟩ := h.sameProject x folder' folderId hx hchild
      obtain rfl := Option.some.inj (hfolder.symm.trans htop)
      obtain ⟨parentFolder, hparent, hproject'⟩ := htarget y hy
      exact ⟨parentFolder, hparent, hproject'.trans hproject⟩
    · exact h.sameProject x folder' y hx hy

/-- The folder that is deleted has no sub-folders left. -/
theorem parentOf_moveAllToFolder_ne {id : String} (hne : folderId ≠ id) (x : String) :
    parentOf (t.moveAllToFolder folderId id) x ≠ some folderId := by
  have hmoves := moves_moveAllToFolder t folderId id
  by_cases hx : t.parentOf x = some folderId
  · rw [Folders.moveAllToFolder, hmoves.parentOf_moved hx, parentAt]
    split_ifs
    · simp
    · exact fun h => hne (Option.some.inj h).symm
  · rwa [Folders.moveAllToFolder, hmoves.parentOf_stays hx]

theorem Forest.noOrphans_delete (h : Forest t) {id : String} (hne : folderId ≠ id)
    (htarget : TargetIn t projectId (parentAt id)) :
    NoOrphans ((t.moveAllToFolder folderId id).delete folderId) := by
  intro x folder hx
  rw [isOrphan]
  cases hparent : folder.parentFolderId with
  | none => rfl
  | some y =>
    rw [OrderedMap.get?_delete] at hx
    split_ifs at hx with hxd
    have hxy : parentOf (t.moveAllToFolder folderId id) x = some y :=
      parentOf_eq_some.mpr ⟨folder, hx, hparent⟩
    have hyd : folderId ≠ y := fun heq =>
      parentOf_moveAllToFolder_ne hne x (by rw [hxy, heq])
    have hthere : ∃ parentFolder, t.get? y = some parentFolder := by
      have hmoves := moves_moveAllToFolder t folderId id
      by_cases hmoved : t.parentOf x = some folderId
      · rw [Folders.moveAllToFolder, hmoves.parentOf_moved hmoved] at hxy
        obtain ⟨parentFolder, hy, _⟩ := htarget y hxy
        exact ⟨parentFolder, hy⟩
      · rw [Folders.moveAllToFolder, hmoves.parentOf_stays hmoved] at hxy
        obtain ⟨folder', hfolder', _⟩ := parentOf_eq_some.mp hxy
        obtain ⟨parentFolder, hy, _⟩ := h.get?_parent hfolder' hxy
        exact ⟨parentFolder, hy⟩
    obtain ⟨parentFolder, hy⟩ := hthere
    rw [Option.any_some, OrderedMap.has, OrderedMap.get?_delete_of_ne hyd, Folders.moveAllToFolder,
      OrderedMap.get?_mapWithKey, hy]
    rfl

theorem Forest.deleteRow_moveAllToFolder (h : Forest t) {id : String} (hne : folderId ≠ id)
    (htarget : TargetIn t projectId (parentAt id)) :
    (t.moveAllToFolder folderId id).deleteRow folderId =
      (t.moveAllToFolder folderId id).delete folderId :=
  withoutOrphans_of_noOrphans (h.noOrphans_delete hne htarget) _

/-- Contents that move below one of the sub-folders leave a cycle behind. -/
theorem Forest.not_deleteRow (h : Forest t) {id d : String} (hne : folderId ≠ id)
    (htarget : TargetIn t projectId (parentAt id)) (hd : parentAt id = some d)
    (hbelow : Below t.parentOf d folderId) :
    ¬ Forest ((t.moveAllToFolder folderId id).deleteRow folderId) := by
  have hdne : d ≠ folderId := by
    rw [parentAt] at hd
    split_ifs at hd
    exact fun heq => hne (heq.symm.trans (Option.some.inj hd).symm)
  -- the last step of the way up from the new parent is out of a sub-folder
  obtain ⟨m, hdm, hm⟩ : ∃ m, Below t.parentOf d m ∧ t.parentOf m = some folderId := by
    rcases Relation.ReflTransGen.cases_tail hbelow with heq | hlast
    · exact absurd heq.symm hdne
    · exact hlast
  have hmoves := moves_moveAllToFolder t folderId id
  obtain ⟨m, hm, hnot⟩ := hmoves.not_rooted hd hm hdm
  rw [h.deleteRow_moveAllToFolder hne htarget]
  intro hforest
  have hdelete : ∀ x, x ≠ folderId → parentOf (t.moveAllToFolder folderId id) x =
      parentOf ((t.moveAllToFolder folderId id).delete folderId) x := by
    intro x hx
    rw [parentOf, parentOf, OrderedMap.get?_delete_of_ne hx.symm]
  refine hnot (rooted_congr (fun x hx => hdelete x ?_) (hforest.rooted' m))
  -- the way up from the sub-folder does not meet the deleted folder
  induction hx with
  | refl =>
    rintro rfl
    exact not_rooted_of_cycle hm .refl (h.rooted' m)
  | tail _ hxy ih =>
    rintro rfl
    rw [← hdelete _ ih] at hxy
    exact parentOf_moveAllToFolder_ne hne _ hxy

/-! ### A folder goes to another project -/

theorem moveFoldersToDestination_eq (t : Folders) (sourceFolderId : String) (ids : List String)
    (destinationProjectId destinationParentFolderId : String) :
    t.moveFoldersToDestination sourceFolderId ids destinationProjectId destinationParentFolderId =
      t.mapWithKey fun id folder =>
        if id = sourceFolderId then ⟨parentAt destinationParentFolderId, destinationProjectId⟩
        else if id ∈ ids then { folder with homeProject := destinationProjectId } else folder := by
  rw [moveFoldersToDestination]
  exact OrderedMap.mapWithKey_mapWithKey t _ _

theorem moves_moveFoldersToDestination {sourceFolderId : String} (hsource : sourceFolderId ∈ t.keys)
    (ids : List String) (destinationProjectId : String) (parent : Option String) :
    Moves t (fun id folder => if id = sourceFolderId then ⟨parent, destinationProjectId⟩
      else if id ∈ ids then { folder with homeProject := destinationProjectId } else folder)
      (· = sourceFolderId) parent where
  there x hx := hx ▸ hsource
  moves x folder _ hx := by rw [if_pos hx]
  stays x folder _ hx := by
    rw [if_neg hx]
    split_ifs <;> rfl

theorem Forest.moveFoldersToDestination (h : Forest t) {sourceFolderId : String} {source : Folder}
    (hsource : t.get? sourceFolderId = some source) (hproject : source.homeProject = projectId)
    {ids : List String} (hids : t.AllFolderIdsInHierarchy sourceFolderId projectId ids)
    {destinationProjectId destinationParentFolderId : String}
    (htarget : TargetIn t destinationProjectId (parentAt destinationParentFolderId))
    (hfree : ∀ d, parentAt destinationParentFolderId = some d →
      ¬ Below t.parentOf d sourceFolderId) :
    Forest (t.moveFoldersToDestination sourceFolderId ids destinationProjectId
      destinationParentFolderId) := by
  rw [moveFoldersToDestination_eq]
  refine h.mapWithKey (moves_moveFoldersToDestination (OrderedMap.mem_keys_of_get? hsource) ids
    destinationProjectId _) ?_ ?_
  · rintro d hd m rfl
    exact hfree d hd
  · intro x folder y hx hy
    have hmem : ∀ z, z ∈ ids ↔ ∃ c, t.parentOf c = some sourceFolderId ∧ Below t.parentOf z c :=
      fun z => h.mem_hierarchy hsource hproject hids
    by_cases hxs : x = sourceFolderId
    · rw [if_pos hxs] at hy ⊢
      obtain ⟨parentFolder, hparent, hdestination⟩ := htarget y hy
      refine ⟨parentFolder, hparent, ?_⟩
      split_ifs
      · rfl
      · rfl
      · exact hdestination
    · rw [if_neg hxs] at hy ⊢
      have hy : folder.parentFolderId = some y := by
        split_ifs at hy <;> exact hy
      have hparentOf : t.parentOf x = some y := parentOf_eq_some.mpr ⟨folder, hx, hy⟩
      obtain ⟨parentFolder, hparent, hsame⟩ := h.sameProject x folder y hx hy
      -- a folder goes along exactly when its parent does
      have hiff : x ∈ ids ↔ y = sourceFolderId ∨ y ∈ ids := by
        rw [hmem, hmem]
        constructor
        · rintro ⟨c, hc, hxc⟩
          rcases Relation.ReflTransGen.cases_head hxc with rfl | ⟨w, hxw, hwc⟩
          · exact Or.inl (Option.some.inj (hparentOf.symm.trans hc))
          · obtain rfl := Option.some.inj (hparentOf.symm.trans hxw)
            exact Or.inr ⟨c, hc, hwc⟩
        · rintro (rfl | ⟨c, hc, hyc⟩)
          · exact ⟨x, hparentOf, .refl⟩
          · exact ⟨c, hc, hyc.head hparentOf⟩
      refine ⟨parentFolder, hparent, ?_⟩
      by_cases hxids : x ∈ ids
      · rw [if_pos hxids]
        rcases hiff.mp hxids with hys | hyids
        · rw [if_pos hys]
        · rw [if_pos hyids]
          split_ifs <;> rfl
      · obtain ⟨hys, hyids⟩ := not_or.mp (mt hiff.mpr hxids)
        rw [if_neg hys, if_neg hyids, if_neg hxids]
        exact hsame

theorem Forest.transferAllFoldersToProject (h : Forest t) (fromProjectId toProjectId : String) :
    Forest (t.transferAllFoldersToProject fromProjectId toProjectId) := by
  have hmoves : Moves t (fun _ folder => if folder.homeProject = fromProjectId then
      { folder with homeProject := toProjectId } else folder) (fun _ => False) none :=
    ⟨nofun, nofun, fun x folder _ _ => by split_ifs <;> rfl⟩
  refine h.mapWithKey hmoves nofun ?_
  intro x folder y hx hy
  have hy : folder.parentFolderId = some y := by
    split_ifs at hy <;> exact hy
  obtain ⟨parentFolder, hparent, hsame⟩ := h.sameProject x folder y hx hy
  refine ⟨parentFolder, hparent, ?_⟩
  rw [hsame]
  split_ifs <;> [rfl; exact hsame]

/-! ### Runs -/

/-- The folder that moves, or whose contents do, and the one that it is put below. -/
def putBelow : FolderCall → Option (String × String)
  | .createFolder _ _ _ => none
  | .updateFolder folderId _ parentFolderId =>
    ((givenId parentFolderId).bind parentAt).map (folderId, ·)
  | .deleteFolder folderId _ transferToFolderId =>
    ((givenId transferToFolderId).bind parentAt).map (folderId, ·)
  | .transferFolder _ _ sourceFolderId _ destinationParentFolderId =>
    (parentAt destinationParentFolderId).map (sourceFolderId, ·)
  | .transferAllFoldersToProject _ _ => none

/-- A folder is put below itself. -/
def PutBelowItself (t : Folders) (call : FolderCall) : Prop :=
  ∃ folderId d, putBelow call = some (folderId, d) ∧ Below t.parentOf d folderId

/-- The folders form a forest in which the recursive queries end. -/
structure Sound (t : Folders) : Prop where
  forest : Forest t
  queriesEnd : ∀ folderId projectId, ∃ ids, t.AllFolderIdsInHierarchy folderId projectId ids

theorem Forest.sound (h : Forest t) : Sound t := ⟨h, h.queryEnds⟩

theorem Forest.step (h : Forest t) {call : FolderCall} (hcall : ¬ PutBelowItself t call)
    (hstep : FolderStep t call t') : Forest t' := by
  have hfree : ∀ folderId d, putBelow call = some (folderId, d) → ¬ Below t.parentOf d folderId :=
    fun folderId d hput hbelow => hcall ⟨folderId, d, hput, hbelow⟩
  cases call with
  | createFolder newId parentFolderId projectId => exact h.createFolder hstep
  | updateFolder folderId projectId parentFolderId =>
    obtain ⟨⟨folder, hfolder, rfl⟩, ⟨_, rfl⟩ | ⟨id, hgiven, htarget, rfl⟩⟩ := updateFolder_ok hstep
    · exact h
    · refine h.setParent hfolder htarget fun d hd => hfree folderId d ?_
      rw [putBelow, hgiven, Option.bind_some, hd, Option.map_some]
  | deleteFolder folderId projectId transferToFolderId =>
    obtain ⟨⟨folder, hfolder, rfl⟩, ⟨_, rfl⟩ | ⟨id, hgiven, _, htarget, rfl⟩⟩ :=
      deleteFolder_ok hstep.2
    · exact h.deleteRow folderId
    · refine Forest.deleteRow (h.moveAllToFolder hfolder htarget fun d hd =>
        hfree folderId d ?_) folderId
      rw [putBelow, hgiven, Option.bind_some, hd, Option.map_some]
  | transferFolder workflowOwners sourceProjectId sourceFolderId destinationProjectId
      destinationParentFolderId =>
    obtain ⟨ids, hids, hok⟩ := hstep
    obtain ⟨htarget, ⟨source, hsource, hproject⟩, rfl⟩ := transferFolder_ok hok
    refine h.moveFoldersToDestination hsource hproject hids htarget fun d hd =>
      hfree sourceFolderId d ?_
    rw [putBelow, hd, Option.map_some]
  | transferAllFoldersToProject fromProjectId toProjectId =>
    obtain rfl := hstep
    exact h.transferAllFoldersToProject fromProjectId toProjectId

theorem Forest.not_step (h : Forest t) {call : FolderCall} (hcall : PutBelowItself t call)
    (hstep : FolderStep t call t') : ¬ Forest t' := by
  obtain ⟨moved, d, hput, hbelow⟩ := hcall
  cases call with
  | createFolder newId parentFolderId projectId => cases hput
  | updateFolder folderId projectId parentFolderId =>
    obtain ⟨⟨folder, hfolder, rfl⟩, ⟨hnone, rfl⟩ | ⟨id, hgiven, _, rfl⟩⟩ := updateFolder_ok hstep
    · rw [putBelow, hnone] at hput
      cases hput
    · rw [putBelow, hgiven, Option.bind_some] at hput
      obtain ⟨target, hd, hpair⟩ := Option.map_eq_some_iff.mp hput
      obtain ⟨rfl, rfl⟩ := Prod.mk.inj hpair
      obtain ⟨m, _, hnot⟩ := (moves_setParent (OrderedMap.mem_keys_of_get? hfolder) (parentAt id)).not_rooted
        hd rfl hbelow
      exact fun hforest => hnot (hforest.rooted' m)
  | deleteFolder folderId projectId transferToFolderId =>
    obtain ⟨_, ⟨hnone, rfl⟩ | ⟨id, hgiven, hne, htarget, rfl⟩⟩ := deleteFolder_ok hstep.2
    · rw [putBelow, hnone] at hput
      cases hput
    · rw [putBelow, hgiven, Option.bind_some] at hput
      obtain ⟨target, hd, hpair⟩ := Option.map_eq_some_iff.mp hput
      obtain ⟨rfl, rfl⟩ := Prod.mk.inj hpair
      exact h.not_deleteRow hne htarget hd hbelow
  | transferFolder workflowOwners sourceProjectId sourceFolderId destinationProjectId
      destinationParentFolderId =>
    obtain ⟨ids, _, hok⟩ := hstep
    obtain ⟨_, ⟨source, hsource, _⟩, rfl⟩ := transferFolder_ok hok
    rw [putBelow] at hput
    obtain ⟨target, hd, hpair⟩ := Option.map_eq_some_iff.mp hput
    obtain ⟨rfl, rfl⟩ := Prod.mk.inj hpair
    obtain ⟨m, _, hnot⟩ := (moves_moveFoldersToDestination (OrderedMap.mem_keys_of_get? hsource) ids
      destinationProjectId _).not_rooted hd rfl hbelow
    rw [moveFoldersToDestination_eq]
    exact fun hforest => hnot (hforest.rooted' m)
  | transferAllFoldersToProject fromProjectId toProjectId => cases hput

/-- The folders form a forest in every state exactly when no call puts a folder below itself. -/
theorem sound_iff {tr : List (FolderCall × Folders)} (hr : Run FolderStep .empty tr) :
    Always Sound .empty tr ↔ EveryStep (fun t call => ¬ PutBelowItself t call) .empty tr :=
  hr.always_iff_everyStep forest_empty (fun _ h => h.sound)
    (fun _ _ _ h hcall hstep => h.step hcall hstep)
    (fun _ _ _ h hcall hstep hsound => h.not_step (not_not.mp hcall) hstep hsound.forest)

section Example

/-- The table after a call, if the call resolves. The queries that it makes are left out. -/
def afterCall (t : Folders) : FolderCall → Folders
  | .createFolder newId parentFolderId projectId =>
    (t.createFolder newId parentFolderId projectId).toOption.getD t
  | .updateFolder folderId projectId parentFolderId =>
    (t.updateFolder folderId projectId parentFolderId).toOption.getD t
  | _ => t

def outerAndInner : List FolderCall :=
  [.createFolder "outer" none "p", .createFolder "inner" (some "outer") "p"]

/-- The outer folder is put into the inner one. -/
def intoItself : List (FolderCall × Folders) :=
  trace afterCall .empty (outerAndInner ++ [.updateFolder "outer" "p" (some "inner")])

theorem intoItself_not_sound : Run FolderStep .empty intoItself ∧ ¬ Always Sound .empty intoItself := by
  refine ⟨.cons rfl (.cons rfl (.cons rfl (.nil _))), fun h => ?_⟩
  have hforest := h.final.forest
  have hcycle : Below (finalState .empty intoItself).parentOf "inner" "outer" :=
    .tail .refl (by decide)
  have hrooted := hforest.rooted' "outer"
  exact not_rooted_of_cycle (by decide) hcycle hrooted

/-- The inner folder is put into another one. -/
def intoAnother : List (FolderCall × Folders) :=
  trace afterCall .empty (outerAndInner ++
    [.createFolder "other" none "p", .updateFolder "inner" "p" (some "other")])

theorem intoAnother_sound : Always Sound .empty intoAnother := by
  have hrun : Run FolderStep .empty intoAnother :=
    .cons rfl (.cons rfl (.cons rfl (.cons rfl (.nil _))))
  refine (sound_iff hrun).mpr ⟨nofun, nofun, nofun, ?_, trivial⟩
  rintro ⟨folderId, d, hput, hbelow⟩
  have hput' : putBelow (.updateFolder "inner" "p" (some "other")) = some ("inner", "other") := by
    decide
  obtain ⟨rfl, rfl⟩ := Prod.mk.inj (Option.some.inj (hput'.symm.trans hput))
  rcases Relation.ReflTransGen.cases_head hbelow with heq | ⟨c, hparent, _⟩
  · exact absurd heq (by decide)
  · cases hparent

end Example
end Folders
end N8n
