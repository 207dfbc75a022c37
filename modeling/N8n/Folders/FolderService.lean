import N8n.Foundations.OrderedMap
import N8n.Foundations.FoldM

/-!
# Folders

The table of folders and the calls that write to it. Of a folder only its parent and
its home project are looked at. The calls check what they are given against the
folder itself and its project. The workflows in the folders are given by the projects
that own them; what is done to them does not touch the folders.
-/

namespace N8n

structure Folder where
  parentFolderId : Option String
  homeProject : String
  deriving DecidableEq, Repr

/-- The folders by their ids. -/
abbrev Folders := OrderedMap String Folder

inductive FolderError where
  | folderNotFound (folderId : String)
  | userError (message : String)
  | entityNotFound
  | transferWorkflow (message : String)
  | database
  deriving DecidableEq, Repr

def PROJECT_ROOT : String := "0"

/-- The empty text counts as not given. -/
def givenId (id : Option String) : Option String := id.filter (· ≠ "")

/-- `null` stands for the root of the project. -/
def parentAt (id : String) : Option String := if id = PROJECT_ROOT then none else some id

namespace Folders

def findOneOrFailFolderInProject (t : Folders) (folderId projectId : String) :
    Except FolderError Folder :=
  match t.get? folderId with
  | none => .error .entityNotFound
  | some folder => if folder.homeProject = projectId then .ok folder else .error .entityNotFound

def findFolderInProjectOrFail (t : Folders) (folderId projectId : String) :
    Except FolderError Folder :=
  (t.findOneOrFailFolderInProject folderId projectId).mapError fun _ => .folderNotFound folderId

def findParentFolder (t : Folders) (parentFolderId : Option String) (projectId : String) :
    Except FolderError (Option String) :=
  match givenId parentFolderId with
  | none => .ok none
  | some parentFolderId =>
    (fun _ => some parentFolderId) <$> t.findFolderInProjectOrFail parentFolderId projectId

/-- The root of the project needs no check. -/
def checkParentFolder (find : Folders → String → String → Except FolderError Folder) (t : Folders)
    (parentFolderId projectId : String) : Except FolderError Unit :=
  if parentFolderId = PROJECT_ROOT then .ok ()
  else (fun _ => ()) <$> find t parentFolderId projectId

/-- The id of the new folder is made by the server; the database refuses one in use. -/
def createFolder (t : Folders) (newId : String) (parentFolderId : Option String)
    (projectId : String) : Except FolderError Folders := do
  let parentFolder ← t.findParentFolder parentFolderId projectId
  if t.has newId then .error .database
  else .ok (t.set newId ⟨parentFolder, projectId⟩)

/-- The folder that has the id, if there is one, gets the parent. -/
def setParent (t : Folders) (folderId : String) (parent : Option String) : Folders :=
  t.mapWithKey fun id folder =>
    if id = folderId then { folder with parentFolderId := parent } else folder

def updateFolder (t : Folders) (folderId projectId : String) (parentFolderId : Option String) :
    Except FolderError Folders := do
  let _ ← t.findFolderInProjectOrFail folderId projectId
  match givenId parentFolderId with
  | none => .ok t
  | some parentFolderId =>
    if folderId = parentFolderId then
      .error (.userError "Cannot set a folder as its own parent")
    else do
      checkParentFolder findFolderInProjectOrFail t parentFolderId projectId
      .ok (t.setParent folderId (parentAt parentFolderId))

def moveAllToFolder (t : Folders) (fromFolderId toFolderId : String) : Folders :=
  t.mapWithKey fun _ folder =>
    if folder.parentFolderId = some fromFolderId then
      { folder with parentFolderId := parentAt toFolderId }
    else folder

/-- The rows whose parent is not in the table. -/
def isOrphan (t : Folders) (folder : Folder) : Bool :=
  folder.parentFolderId.any fun parent => !t.has parent

/-- Deleting a row deletes its sub-folders: what is left without its parent goes as well. -/
def withoutOrphans : ℕ → Folders → Folders
  | 0, t => t
  | rounds + 1, t => withoutOrphans rounds (t.filter fun _ folder => !t.isOrphan folder)

def deleteRow (t : Folders) (folderId : String) : Folders :=
  withoutOrphans t.size (t.delete folderId)

/-- The folders of the project right below the given ones. Without a project all count. -/
def subFolders (t : Folders) (projectId : String) (parents : List String) : List String :=
  (t.entries.filter fun e => decide (projectId = "" ∨ e.2.homeProject = projectId) &&
    e.2.parentFolderId.any fun parent => decide (parent ∈ parents)).map Prod.fst

/-- The recursive query, level by level; it ends when a level is empty. -/
def folderTree (t : Folders) (projectId : String) : ℕ → List String → Option (List String)
  | 0, _ => none
  | _ + 1, [] => some []
  | rounds + 1, folderId :: folderIds =>
    (folderId :: folderIds ++ ·) <$> folderTree t projectId rounds
      (t.subFolders projectId (folderId :: folderIds))

/-- The query ends with these ids. -/
def AllFolderIdsInHierarchy (t : Folders) (parentFolderId projectId : String)
    (ids : List String) : Prop :=
  ∃ rounds, t.folderTree projectId rounds (t.subFolders projectId [parentFolderId]) = some ids

def deleteFolder (t : Folders) (folderId projectId : String) (transferToFolderId : Option String) :
    Except FolderError Folders := do
  let _ ← t.findFolderInProjectOrFail folderId projectId
  match givenId transferToFolderId with
  | none => .ok (t.deleteRow folderId)
  | some transferToFolderId =>
    if folderId = transferToFolderId then
      .error (.userError "Cannot transfer folder contents to the folder being deleted")
    else do
      checkParentFolder findFolderInProjectOrFail t transferToFolderId projectId
      .ok ((t.moveAllToFolder folderId transferToFolderId).deleteRow folderId)

def moveFoldersToDestination (t : Folders) (sourceFolderId : String)
    (childrenFolderIds : List String) (destinationProjectId destinationParentFolderId : String) :
    Folders :=
  let moved := t.mapWithKey fun id folder =>
    if id ∈ childrenFolderIds then { folder with homeProject := destinationProjectId } else folder
  moved.mapWithKey fun id folder =>
    if id = sourceFolderId then ⟨parentAt destinationParentFolderId, destinationProjectId⟩
    else folder

/-- `childrenFolderIds` is what the query came back with, `workflowOwners` are the projects that
own the workflows in these folders. -/
def transferFolder (t : Folders) (childrenFolderIds : List String) (workflowOwners : List String)
    (sourceProjectId sourceFolderId destinationProjectId destinationParentFolderId : String) :
    Except FolderError Folders := do
  checkParentFolder findOneOrFailFolderInProject t destinationParentFolderId destinationProjectId
  let _ ← t.findOneOrFailFolderInProject sourceFolderId sourceProjectId
  if destinationProjectId ∈ workflowOwners then
    .error (.transferWorkflow
      "You can't transfer a workflow into the project that's already owning it.")
  else .ok (t.moveFoldersToDestination sourceFolderId childrenFolderIds destinationProjectId
    destinationParentFolderId)

def transferAllFoldersToProject (t : Folders) (fromProjectId toProjectId : String) : Folders :=
  t.mapWithKey fun _ folder =>
    if folder.homeProject = fromProjectId then { folder with homeProject := toProjectId }
    else folder

end Folders

inductive FolderCall where
  | createFolder (newId : String) (parentFolderId : Option String) (projectId : String)
  | updateFolder (folderId projectId : String) (parentFolderId : Option String)
  | deleteFolder (folderId projectId : String) (transferToFolderId : Option String)
  | transferFolder (workflowOwners : List String) (sourceProjectId sourceFolderId : String)
      (destinationProjectId destinationParentFolderId : String)
  | transferAllFoldersToProject (fromProjectId toProjectId : String)
  deriving DecidableEq, Repr

/-- The call resolves. A query that does not end keeps it from that. -/
def FolderStep (t : Folders) : FolderCall → Folders → Prop
  | .createFolder newId parentFolderId projectId, t' =>
    t.createFolder newId parentFolderId projectId = .ok t'
  | .updateFolder folderId projectId parentFolderId, t' =>
    t.updateFolder folderId projectId parentFolderId = .ok t'
  | .deleteFolder folderId projectId transferToFolderId, t' =>
    (givenId transferToFolderId = none →
      ∃ ids, t.AllFolderIdsInHierarchy folderId projectId ids) ∧
    t.deleteFolder folderId projectId transferToFolderId = .ok t'
  | .transferFolder workflowOwners sourceProjectId sourceFolderId destinationProjectId
      destinationParentFolderId, t' =>
    ∃ ids, t.AllFolderIdsInHierarchy sourceFolderId sourceProjectId ids ∧
      t.transferFolder ids workflowOwners sourceProjectId sourceFolderId destinationProjectId
        destinationParentFolderId = .ok t'
  | .transferAllFoldersToProject fromProjectId toProjectId, t' =>
    t' = t.transferAllFoldersToProject fromProjectId toProjectId

end N8n
