import Veloce.Fileserver.S3Multipart
import Veloce.Fileserver.S3Store

/-! An upload is completed as a whole or not at all: which requests do so, when calls of the
file system may fail. -/

namespace Veloce

open Collections Path

section Files

variable {site : S3Site} {made tree tree' : FileTree String Bytes} {filePath : String} {content : Bytes}
variable {left : Option Bytes} {path other : List String} {disk : Disk}

theorem LeftAs.read? (as : LeftAs made path left tree) (other : List String) :
    tree.read? other = if other = path then left else made.read? other := by
  have node := as other
  split
  · rename_i same
    rw [if_pos same] at node
    rw [FileTree.read?, node]
    cases left with
    | none => rfl
    | some content => rfl
  · rename_i different
    rw [if_neg different] at node
    exact FileTree.read?_congr node

/-- There is room for a file at the path. -/
abbrev RoomAt (made : FileTree String Bytes) (path : List String) : Prop := (made.writeFile path []).isSome

theorem LeftAs.isDir (as : LeftAs made path left tree) (room : RoomAt made path) (other : List String) :
    tree.isDir other = made.isDir other := by
  have node := as other
  by_cases same : other = path
  · rw [if_pos same] at node
    rw [same, (FileTree.writeFile_isSome_iff.mp room).2.1, ← same, FileTree.isDir, node]
    cases left with
    | none => rfl
    | some content => rfl
  · rw [if_neg same] at node
    rw [FileTree.isDir, FileTree.isDir, node]

theorem LeftAs.locate (as : LeftAs made path left tree) (room : RoomAt made path) (text : String) :
    site.locate text tree = site.locate text made := FileTree.locate_congr (as.isDir room)

theorem LeftAs.write (as : LeftAs made path left tree) (room : RoomAt made path) (content : Bytes) :
    LeftAs made path (some content) ((tree.writeFile path content).getD tree) := by
  have again : (tree.writeFile path content).isSome := by
    rw [FileTree.writeFile_isSome_iff, as.isDir room, as.isDir room]
    exact FileTree.writeFile_isSome_iff.mp room
  obtain ⟨tree', written⟩ := Option.isSome_iff_exists.mp again
  intro other
  rw [written, Option.getD_some, FileTree.node?_writeFile written]
  split
  · rfl
  · rename_i different
    rw [as other, if_neg different]

theorem LeftAs.refill (as : LeftAs made (site.resolve filePath) left disk.tree) (room : RoomAt made (site.resolve filePath))
    (content : Bytes) : LeftAs made (site.resolve filePath) (some content) (site.refill filePath content disk).tree := by
  rw [tree_refill]
  exact as.write room content

theorem LeftAs.removed (as : LeftAs made (site.resolve filePath) (some content) disk.tree)
    (room : RoomAt made (site.resolve filePath)) (leads : site.locate filePath made = some (site.resolve filePath)) :
    LeftAs made (site.resolve filePath) none (site.removeFile filePath disk).1.tree := by
  have tree : (site.removeFile filePath disk).1.tree = (disk.tree.removeFile (site.resolve filePath)).getD disk.tree := by
    rw [S3Site.removeFile, S3Site.change, as.locate room, leads]
    rfl
  have present := as.read? (site.resolve filePath)
  rw [if_pos rfl] at present
  obtain ⟨tree', removed⟩ : ∃ tree', disk.tree.removeFile (site.resolve filePath) = some tree' := by
    rw [FileTree.removeFile, present]
    exact ⟨_, rfl⟩
  intro other
  rw [tree, removed, Option.getD_some, FileTree.node?_removeFile removed]
  split
  · rfl
  · rename_i different
    rw [as other, if_neg different]

theorem LeftAs.loseWrite {faults : CompleteFaults} (as : LeftAs made (site.resolve filePath) left disk.tree)
    (room : RoomAt made (site.resolve filePath)) :
    LeftAs made (site.resolve filePath) (left.map faults.cut) (site.loseWrite faults filePath disk).tree := by
  unfold S3Site.loseWrite CompleteFaults.cut
  rw [as.read?, if_pos rfl]
  cases faults.lastWrite with
  | none => simpa using as
  | some kept =>
    cases left with
    | none => exact as
    | some content => exact as.refill room (content.take kept)

end Files

section Loop

variable {site : S3Site} {faults : CompleteFaults} {before made : FileTree String Bytes} {tempDir filePath : String}
variable {parts : List ListedPart} {content : Bytes} {left left' : Option Bytes} {disk disk' : Disk} {path : List String}

variable {tree : FileTree String Bytes} {listed : ListedPart}

private theorem copies_unique {data data' : Bytes} (first : site.Copies before path tempDir content listed data)
    (second : site.Copies before path tempDir content listed data') : data = data' :=
  Option.some.inj (first.now.symm.trans second.now)

private theorem leaves_unique (first : site.Leaves faults before path tempDir content parts left)
    (second : site.Leaves faults before path tempDir content parts left') : left = left' := by
  induction first with
  | here stops =>
    cases second with
    | here _ => rfl
    | later copies _ => exact absurd copies (stops _)
  | later copies _ ih =>
    cases second with
    | here stops => exact absurd copies (stops _)
    | later copies' leaves =>
      cases copies_unique copies copies'
      exact ih leaves

private theorem combines_unique {all all' : Bytes} (first : site.Combines before path tempDir content parts all)
    (second : site.Combines before path tempDir content parts all') : all = all' := by
  induction first with
  | nil =>
    cases second
    rfl
  | cons copies _ ih =>
    cases second with
    | cons copies' combines =>
      cases copies_unique copies copies'
      exact ih combines

private theorem leaves_uncombined (leaves : site.Leaves faults before path tempDir content parts left) (all : Bytes) :
    ¬ site.Combines before path tempDir content parts all := by
  intro combines
  induction leaves with
  | here stops =>
    cases combines with
    | cons copies _ => exact stops _ copies
  | later copies _ ih =>
    cases combines with
    | cons copies' combines =>
      cases copies_unique copies copies'
      exact ih combines

/-- What is read of a part in the loop. -/
private theorem partNow_eq (as : LeftAs made path (some content) tree) (room : RoomAt made path)
    (reads : ∀ other, made.read? other = before.read? other)
    (found : site.locate (S3Site.partPath tempDir listed) made = site.locate (S3Site.partPath tempDir listed) before) :
    (site.locate (S3Site.partPath tempDir listed) tree).bind tree.read? = site.partNow before path tempDir content listed := by
  rw [S3Site.partNow, S3Site.readAt, as.locate room, found]
  cases leads : site.locate (S3Site.partPath tempDir listed) before with
  | none =>
    rw [if_neg fun object => Option.some_ne_none _ (object.symm.trans leads)]
    rfl
  | some location =>
    rw [Option.bind_some, Option.bind_some, as.read?, reads]
    exact if_congr ⟨fun same => leads.trans (congrArg some same), fun object => Option.some.inj (leads.symm.trans object)⟩ rfl rfl

/-- A part that cannot be opened as a file. -/
private theorem partNow_eq_none
    (now : (site.locate (S3Site.partPath tempDir listed) tree).bind tree.read? =
      site.partNow before path tempDir content listed)
    (unread : ∀ data, (site.locate (S3Site.partPath tempDir listed) tree).bind tree.node? ≠ some (.file data)) :
    site.partNow before path tempDir content listed = none := by
  rw [← now]
  refine Option.eq_none_iff_forall_ne_some.mpr fun data present => unread data ?_
  obtain ⟨location, located, file⟩ := Option.bind_eq_some_iff.mp present
  rw [located, Option.bind_some]
  exact FileTree.read?_eq_some_iff.mp file

private theorem looped_cons {data : Bytes} {result : Except Refusal Bytes}
    (copies : site.Copies before path tempDir content listed data)
    (later : Looped site faults before made path tempDir (content ++ data) parts tree result) :
    Looped site faults before made path tempDir content (listed :: parts) tree result := by
  cases result with
  | ok all => exact ⟨.cons copies later.1, later.2⟩
  | error refusal =>
    obtain ⟨left, leaves, as⟩ := later
    exact ⟨left, .later copies leaves, as⟩

private theorem looped_stops {refusal : Refusal}
    (stops : ∀ data, ¬ site.Copies before path tempDir content listed data)
    (as : LeftAs made path (site.stopped faults before path tempDir content listed) tree) :
    Looped site faults before made path tempDir content (listed :: parts) tree (.error refusal) :=
  ⟨_, .here stops, as⟩

private theorem looped_copyParts {result : Except Refusal Bytes} (room : RoomAt made (site.resolve filePath))
    (leads : site.locate filePath made = some (site.resolve filePath))
    (reads : ∀ other, made.read? other = before.read? other)
    (found : ∀ listed, site.locate (S3Site.partPath tempDir listed) made = site.locate (S3Site.partPath tempDir listed) before)
    (as : LeftAs made (site.resolve filePath) (some content) disk.tree)
    (ran : site.copyParts faults filePath tempDir parts content disk = some (disk', result)) :
    Looped site faults before made (site.resolve filePath) tempDir content parts disk'.tree result := by
  induction parts generalizing content disk with
  | nil =>
    cases ran
    exact ⟨.nil, as⟩
  | cons listed rest ih =>
    obtain ⟨part, copy⟩ := listed
    have now := partNow_eq as room reads (found (part, copy))
    rw [S3Site.copyParts] at ran
    dsimp only at ran
    split at ran
    · rename_i looked data opened
      obtain ⟨same, node⟩ := of_look opened
      obtain ⟨location, located, file⟩ := Option.bind_eq_some_iff.mp node
      have as : LeftAs made (site.resolve filePath) (some content) looked.tree := same ▸ as
      have grows : site.IsObject before (site.resolve filePath) tempDir (part, copy) ↔
          site.resolve (join tempDir (toString part.partNumber)) = site.resolve filePath := by
        rw [S3Site.IsObject, ← found, ← as.locate room, same, S3Site.partPath, located, Option.some.injEq,
          resolve_of_locate located]
      have there : site.partNow before (site.resolve filePath) tempDir content (part, copy) = some data := by
        rw [← now, S3Site.partPath, located, Option.bind_some]
        exact FileTree.read?_eq_some_iff.mpr file
      cases copy with
      | unopened =>
        cases ran
        refine looped_stops (fun _ copies => by cases copies.whole) ?_
        rw [S3Site.stopped, there, Option.elim_some]
        exact as
      | broken copied =>
        cases ran
        refine looped_stops (fun _ copies => by cases copies.whole) ?_
        rw [S3Site.stopped, there, Option.elim_some]
        simp only [grows]
        exact as.refill room _
      | whole =>
        obtain ⟨ends, ran⟩ := Option.ite_none_left_eq_some.mp ran
        have refilled := as.refill room (content ++ data)
        split at ran
        · rename_i wrong
          cases ran
          refine looped_stops (fun other copies => wrong ?_) ?_
          · rw [Option.some.inj (there.symm.trans copies.now)]
            exact copies.tagged
          · rw [S3Site.stopped, there, Option.elim_some]
            unfold S3Site.failing
            cases faults.unremoved with
            | true => exact refilled
            | false => exact refilled.removed room leads
        · rename_i right
          refine looped_cons ⟨rfl, there, not_not.mp right, fun aliased => ?_⟩ (ih refilled ran)
          exact by_contra fun filled => ends ⟨grows.mp aliased, filled⟩
    · rename_i looked node unread opened
      cases ran
      obtain ⟨same, node⟩ := of_look opened
      have missing : site.partNow before (site.resolve filePath) tempDir content (part, copy) = none :=
        partNow_eq_none now fun data present => unread data (node.symm.trans present)
      refine looped_stops (fun data copies => Option.some_ne_none data (copies.now.symm.trans missing)) ?_
      rw [S3Site.stopped, missing, Option.elim_none]
      exact same ▸ as

end Loop

section Found

variable {site : S3Site} {before made tree tree' : FileTree String Bytes} {bucket uploadId tempDir name base : String}
variable {listed : ListedPart} {location other : List String}

private theorem locate_join_name (proper : IsName name) (base : String) (tree : FileTree String Bytes) : site.locate (join base name) tree =
    (site.locate base tree).bind fun location => if tree.isDir location then some (location ++ [name]) else none := by
  have relative := isAbsolute_of_isName proper
  have start : site.start (join base name) = site.start base := by
    rw [S3Site.start, isAbsolute_join base relative]
    rfl
  have one (location : List String) : tree.locate location [name] = if tree.isDir location then some (location ++ [name]) else none := by
    rw [FileTree.locate, advance_name proper]
    rfl
  rw [S3Site.locate, S3Site.locate, start]
  by_cases empty : base = ""
  · rw [join_of_relative base relative, if_pos (.inl empty), empty, String.empty_append, pieces_of_unslashed proper.unslashed, one,
      show pieces "" = [""] from rfl, FileTree.locate]
    split
    · rename_i here
      exact (if_pos here).symm
    · rfl
  · rcases pieces_join empty relative with whole | ⟨front, split, whole⟩
    · rw [whole, pieces_of_unslashed proper.unslashed, FileTree.locate_append]
      simp only [one]
    · rw [whole, split, pieces_of_unslashed proper.unslashed, FileTree.locate_append, FileTree.locate_append]
      cases tree.locate (site.start base) front with
      | none => rfl
      | some location =>
        rw [Option.bind_some, Option.bind_some, one, FileTree.locate]
        split
        · rename_i here
          exact (if_pos here).symm
        · rfl

private theorem isDir_grown (grown : before.Grown made) (there : before.node? location ≠ none) :
    made.isDir location = before.isDir location := by
  cases found : before.node? location with
  | none => exact absurd found there
  | some node =>
    cases node with
    | dir => rw [grown.dirs location (FileTree.isDir_iff.mpr found), FileTree.isDir_iff.mpr found]
    | file content =>
      have read := (grown.read location).trans (FileTree.read?_eq_some_iff.mpr found)
      rw [FileTree.read?_eq_some_iff] at read
      rw [FileTree.isDir, FileTree.isDir, found, read]

/-- The parts of an upload that is there are found where they were. -/
private theorem locate_partPath (grown : before.Grown made) (there : ((site.locate tempDir before).bind before.node?).isSome)
    (listed : ListedPart) :
    site.locate (S3Site.partPath tempDir listed) made = site.locate (S3Site.partPath tempDir listed) before := by
  obtain ⟨node, found⟩ := Option.isSome_iff_exists.mp there
  obtain ⟨location, located, present⟩ := Option.bind_eq_some_iff.mp found
  have later : site.locate tempDir made = some location := FileTree.locate_mono grown.dirs located
  rw [S3Site.partPath, locate_join_name (isName_toString _), locate_join_name (isName_toString _), located, later,
    Option.bind_some, Option.bind_some, isDir_grown grown (by rw [present]; exact Option.some_ne_none _)]

private theorem readAt_grown (grown : before.Grown made) {path : String} {content : Bytes} (found : site.readAt before path = some content) :
    site.readAt made path = some content := by
  obtain ⟨location, located, file⟩ := Option.bind_eq_some_iff.mp found
  have later : site.locate path made = some location := FileTree.locate_mono grown.dirs located
  rw [S3Site.readAt, later, Option.bind_some, grown.read, file]

private theorem inUpload_grown (grown : before.Grown made)
    (there : ((site.locate (site.uploadDir bucket uploadId) before).bind before.node?).isSome) (path : List String) :
    site.InUpload made path bucket uploadId ↔ site.InUpload before path bucket uploadId := by
  obtain ⟨node, found⟩ := Option.isSome_iff_exists.mp there
  obtain ⟨location, located, present⟩ := Option.bind_eq_some_iff.mp found
  have later : site.locate (site.uploadDir bucket uploadId) made = some location := FileTree.locate_mono grown.dirs located
  rw [S3Site.InUpload, S3Site.InUpload, located, later]
  simp only [Option.some.injEq, exists_eq_left', isDir_grown grown (by rw [present]; exact Option.some_ne_none _)]

def S3Site.Gone (site : S3Site) (tree : FileTree String Bytes) (bucket uploadId : String) (other : List String) : Prop :=
  ∃ location, site.locate (site.uploadDir bucket uploadId) tree = some location ∧ tree.isDir location = true ∧
    location <+: other ∧ other ≠ [] ∧ (FileTree.endsInDots (pieces (site.uploadDir bucket uploadId)) = true → other ≠ location)

private theorem node?_swept (site : S3Site) (tree : FileTree String Bytes) (bucket uploadId : String) (other : List String) :
    site.Gone tree bucket uploadId other ∧ (site.swept bucket uploadId tree).node? other = none ∨
      ¬ site.Gone tree bucket uploadId other ∧ (site.swept bucket uploadId tree).node? other = tree.node? other := by
  rw [S3Site.swept, S3Site.Gone]
  cases site.locate (site.uploadDir bucket uploadId) tree with
  | none =>
    refine .inr ⟨fun gone => ?_, rfl⟩
    cases gone.choose_spec.1
  | some location =>
    simp only [Option.some.injEq, exists_eq_left', Option.bind_some]
    cases removed : tree.removeAll (pieces (site.uploadDir bucket uploadId)) location with
    | none =>
      refine .inr ⟨fun gone => ?_, rfl⟩
      have done := (FileTree.removeAll_isSome_iff (pieces (site.uploadDir bucket uploadId))).mpr gone.1
      rw [removed] at done
      cases done
    | some rest =>
      have dir : tree.isDir location = true := (FileTree.removeAll_isSome_iff _).mp (by rw [removed]; rfl)
      rw [Option.getD_some, FileTree.node?_removeAll removed]
      split
      · rename_i gone
        exact .inl ⟨⟨dir, gone⟩, rfl⟩
      · rename_i kept
        exact .inr ⟨fun gone => kept gone.2, rfl⟩

private theorem read?_swept {content : Bytes} : (site.swept bucket uploadId tree).read? other = some content ↔
    ¬ site.InUpload tree other bucket uploadId ∧ tree.read? other = some content := by
  rcases node?_swept site tree bucket uploadId other with ⟨gone, none⟩ | ⟨kept, same⟩
  · obtain ⟨location, located, dir, below, _⟩ := gone
    rw [FileTree.read?, none]
    refine iff_of_false (fun found => ?_) fun both => both.1 ⟨location, located, dir, below⟩
    cases found
  · rw [FileTree.read?_congr same]
    refine (and_iff_right_of_imp fun file => ?_).symm
    rintro ⟨location, located, dir, below⟩
    rw [FileTree.read?_eq_some_iff] at file
    refine kept ⟨location, located, dir, below, fun root => ?_, fun _ same => ?_⟩
    · rw [root, FileTree.node?, if_pos rfl] at file
      cases file
    · rw [FileTree.isDir_iff, ← same, file] at dir
      cases dir

private theorem isDir_swept_congr (dirs : ∀ other, tree'.isDir other = tree.isDir other) (other : List String) :
    (site.swept bucket uploadId tree').isDir other = (site.swept bucket uploadId tree).isDir other := by
  have gone : site.Gone tree' bucket uploadId other ↔ site.Gone tree bucket uploadId other := by
    have located : site.locate (site.uploadDir bucket uploadId) tree' = site.locate (site.uploadDir bucket uploadId) tree :=
      FileTree.locate_congr dirs
    rw [S3Site.Gone, S3Site.Gone, located]
    simp only [dirs]
  have same := dirs other
  unfold FileTree.isDir at same ⊢
  rcases node?_swept site tree' bucket uploadId other with ⟨gone', none'⟩ | ⟨kept', same'⟩
  · rcases node?_swept site tree bucket uploadId other with ⟨_, none⟩ | ⟨kept, _⟩
    · rw [none, none']
    · exact absurd (gone.mp gone') kept
  · rcases node?_swept site tree bucket uploadId other with ⟨gone'', _⟩ | ⟨_, same''⟩
    · exact absurd (gone.mpr gone'') kept'
    · rw [same', same'']
      exact same

end Found

section Answer

variable {site : S3Site} {faults : CompleteFaults} {bucket home key uploadId : String} {disk disk' : Disk}
variable {payload : Except String (List ListedPart)} {parts : List ListedPart} {answer : Except Refusal S3Answer}

private theorem tree_parentMade (site : S3Site) (filePath : String) (disk : Disk) :
    ((Path.parent filePath).elim disk fun parent => (site.createDirAll parent disk).1).tree =
      site.parentMade filePath disk.tree := by
  unfold S3Site.parentMade
  cases Path.parent filePath with
  | none => rfl
  | some parent => rfl

private theorem grown_parentMade (site : S3Site) (filePath : String) (tree : FileTree String Bytes) :
    tree.Grown (site.parentMade filePath tree) := by
  rw [← tree_parentMade site filePath { tree }]
  exact grown_parent site filePath { tree }

private theorem locate_of_createFile {path : String} {content : Bytes} (ran : site.createFile path content disk = (disk', true)) :
    site.locate path disk.tree = some (site.resolve path) := by
  rw [S3Site.createFile, S3Site.change, Prod.mk.injEq] at ran
  obtain ⟨tree, done⟩ := Option.isSome_iff_exists.mp ran.2
  obtain ⟨location, leads, _⟩ := Option.bind_eq_some_iff.mp done
  rw [← resolve_of_locate leads, leads]

private theorem writeFile_of_uncreated {path : String} {content : Bytes} (ran : site.createFile path content disk = (disk', false)) :
    ((site.locate path disk.tree).bind fun location => disk.tree.writeFile location content) = none ∧ disk'.tree = disk.tree := by
  rw [S3Site.createFile, S3Site.change, Prod.mk.injEq, Option.isSome_eq_false_iff, Option.isNone_iff_eq_none] at ran
  rw [← ran.1, ran.2]
  exact ⟨rfl, rfl⟩

inductive Completed (site : S3Site) (faults : CompleteFaults) (bucket key uploadId : String) (parts : List ListedPart)
    (opened disk' : Disk) : Except Refusal S3Answer → Prop where
  | failed {looped : Disk} {refusal : Refusal}
      (ran : site.copyParts faults (site.getS3FilePath bucket key) (site.uploadDir bucket uploadId) parts [] opened =
        some (looped, .error refusal))
      (left : disk' = site.loseWrite faults (site.getS3FilePath bucket key) looped) :
      Completed site faults bucket key uploadId parts opened disk' (.error refusal)
  | done {looped : Disk} {content : Bytes} {answer : S3Answer}
      (ran : site.copyParts faults (site.getS3FilePath bucket key) (site.uploadDir bucket uploadId) parts [] opened =
        some (looped, .ok content))
      (left : disk' = (site.removeDirAll (site.uploadDir bucket uploadId)
        (site.loseWrite faults (site.getS3FilePath bucket key) looped)).1) :
      Completed site faults bucket key uploadId parts opened disk' (.ok answer)

/-- What a request can do: it is refused, with some more directories at most, or makes the file. -/
private theorem completeMultipart_cases
    (answered : site.completeMultipart faults bucket key uploadId payload disk = some (disk', answer)) :
    (∃ refusal, answer = .error refusal) ∧ disk.tree.Grown disk'.tree ∧
        (∀ parts, payload = .ok parts → ¬ site.Makes faults disk.tree bucket key uploadId) ∨
      ∃ parts opened, payload = .ok parts ∧ site.Makes faults disk.tree bucket key uploadId ∧
        LeftAs (site.parentMade (site.getS3FilePath bucket key) disk.tree) (site.objectAt bucket key) (some []) opened.tree ∧
        Completed site faults bucket key uploadId parts opened disk' answer := by
  rw [S3Site.completeMultipart] at answered
  split at answered
  · rename_i legacy
    cases answered
    exact .inl ⟨⟨_, rfl⟩, .refl _, fun _ _ makes => makes.writable legacy⟩
  · rename_i writable
    dsimp only at answered
    split at answered
    · rename_i looked found
      obtain ⟨same, node⟩ := of_look found
      cases answered
      refine .inl ⟨⟨_, rfl⟩, same ▸ .refl _, fun _ _ makes => ?_⟩
      have there := makes.upload
      rw [node] at there
      cases there
    · rename_i looked node found
      obtain ⟨same, there⟩ := of_look found
      cases payload with
      | error reason =>
        cases answered
        refine .inl ⟨⟨_, rfl⟩, same ▸ .refl _, fun _ listed => ?_⟩
        cases listed
      | ok parts =>
        dsimp only at answered
        have ready := tree_parentMade site (site.getS3FilePath bucket key) looked
        rw [same] at ready
        have grown := grown_parentMade site (site.getS3FilePath bucket key) disk.tree
        generalize ((Path.parent (site.getS3FilePath bucket key)).elim looked fun parent =>
          (site.createDirAll parent looked).1) = prepared at ready answered
        split at answered
        · rename_i refused created
          cases answered
          unfold S3Site.failing at created
          split at created
          · rename_i uncreated
            cases created
            refine .inl ⟨⟨_, rfl⟩, ready ▸ grown, fun _ _ makes => ?_⟩
            rw [makes.created] at uncreated
            cases uncreated
          · obtain ⟨full, kept⟩ := writeFile_of_uncreated created
            refine .inl ⟨⟨_, rfl⟩, kept ▸ ready ▸ grown, fun _ _ makes => ?_⟩
            have room := makes.room
            rw [ready, makes.leads, Option.bind_some] at full
            rw [full] at room
            cases room
        · rename_i opened created
          unfold S3Site.failing at created
          split at created
          · cases created
          · rename_i uncreated
            have made := writeFile_of_createFile created
            have leads := locate_of_createFile created
            rw [ready] at made leads
            have makes : site.Makes faults disk.tree bucket key uploadId :=
              ⟨writable, by rw [there]; rfl, Bool.eq_false_iff.mpr uncreated, leads, Option.isSome_iff_exists.mpr ⟨_, made⟩⟩
            refine .inr ⟨parts, opened, rfl, makes, FileTree.node?_writeFile made, ?_⟩
            split at answered
            · cases answered
            · rename_i looped refusal ran
              cases answered
              exact .failed ran rfl
            · rename_i looped content ran
              cases answered
              exact .done ran rfl

/-- A failed request leaves the object and the parts if and only if there was no object, or
just the one that it leaves. -/
theorem kept_iff {before after : FileTree String Bytes} {left : Option Bytes} {refusal : Refusal}
    (makes : site.Makes faults before bucket key uploadId)
    (as : LeftAs (site.parentMade (site.getS3FilePath bucket key) before) (site.objectAt bucket key) left after) :
    site.AllOrNothing before after bucket home key uploadId payload (.error refusal) ↔
      (site.Held before bucket key uploadId →
        before.read? (site.objectAt bucket key) = none ∨ before.read? (site.objectAt bucket key) = left) := by
  have grown := grown_parentMade site (site.getS3FilePath bucket key) before
  have located (text : String) : site.locate text after = _ := as.locate makes.room text
  have present : after.read? (site.objectAt bucket key) = left := (as.read? _).trans (if_pos rfl)
  have object : site.readAt after (site.getS3FilePath bucket key) = left := by
    rw [S3Site.readAt, located, makes.leads, Option.bind_some, present]
  rw [S3Site.AllOrNothing, object]
  constructor
  · rintro ⟨kept, parts⟩ held
    cases there : before.read? (site.objectAt bucket key) with
    | none => exact .inl rfl
    | some old =>
      refine .inr ?_
      rcases held with found | ⟨listed, found⟩
      · exact (kept old (by rw [S3Site.readAt, found, Option.bind_some, there])).symm
      · have found' : site.locate (S3Site.partPath (site.uploadDir bucket uploadId) listed) before =
            some (site.objectAt bucket key) := found
        have same := parts listed old (by rw [S3Site.readAt, found', Option.bind_some, there])
        rw [S3Site.readAt, located, locate_partPath grown makes.upload, found', Option.bind_some, present] at same
        exact same.symm
  · intro spared
    have same (held : site.Held before bucket key uploadId) {old : Bytes}
        (there : before.read? (site.objectAt bucket key) = some old) : left = some old := by
      rcases spared held with absent | same
      · rw [absent] at there
        cases there
      · rw [← same, there]
    refine ⟨fun old found => ?_, fun listed data found => ?_⟩
    · obtain ⟨location, leads, there⟩ := Option.bind_eq_some_iff.mp found
      have leads' : site.locate (site.getS3FilePath bucket key) before = some (site.objectAt bucket key) := by
        rw [leads, resolve_of_locate leads]
        rfl
      cases leads.symm.trans leads'
      exact same (.inl leads') there
    · obtain ⟨location, leads, there⟩ := Option.bind_eq_some_iff.mp found
      rw [S3Site.readAt, located, locate_partPath grown makes.upload, leads, Option.bind_some, as.read?]
      split
      · rename_i aliased
        rw [aliased] at leads there
        exact same (.inr ⟨listed, leads⟩) there
      · rw [grown.read, there]

/-- A completed upload is the object of its key if and only if the request's key has the same
file, outside the directory of the upload, or the object was there before. -/
private theorem home_iff {before : FileTree String Bytes} {settled : Disk} {object : S3Answer} {all : Bytes}
    (makes : site.Makes faults before bucket key uploadId)
    (as : LeftAs (site.parentMade (site.getS3FilePath bucket key) before) (site.objectAt bucket key) (some (faults.cut all))
      settled.tree) :
    site.AllOrNothing before (site.removeDirAll (site.uploadDir bucket uploadId) settled).1.tree bucket home key uploadId
      (.ok parts) (.ok object) ↔ site.Home faults before bucket home key uploadId parts all := by
  have grown := grown_parentMade site (site.getS3FilePath bucket key) before
  have tree : (site.removeDirAll (site.uploadDir bucket uploadId) settled).1.tree = site.swept bucket uploadId settled.tree := rfl
  have dirs := as.isDir makes.room
  have located : site.locate (site.getS3FilePath bucket home) (site.swept bucket uploadId settled.tree) =
      site.locate (site.getS3FilePath bucket home)
        (site.swept bucket uploadId (site.parentMade (site.getS3FilePath bucket key) before)) :=
    FileTree.locate_congr (isDir_swept_congr dirs)
  have upload (location : List String) : site.InUpload settled.tree location bucket uploadId ↔
      site.InUpload before location bucket uploadId := by
    rw [← inUpload_grown grown makes.upload, S3Site.InUpload, S3Site.InUpload, as.locate makes.room]
    simp only [dirs]
  have whole (location : List String) : (site.swept bucket uploadId settled.tree).read? location =
        some (site.combined before (site.uploadDir bucket uploadId) parts) ↔
      ¬ site.InUpload before location bucket uploadId ∧
        (if location = site.objectAt bucket key then some (faults.cut all) else before.read? location) =
          some (site.combined before (site.uploadDir bucket uploadId) parts) := by
    rw [read?_swept, upload, as.read?, grown.read]
  rw [tree]
  constructor
  · rintro ⟨parts', same, there, tagged⟩
    cases same
    obtain ⟨location, leads, there⟩ := Option.bind_eq_some_iff.mp there
    exact ⟨tagged, location, located ▸ leads, (whole location).mp there⟩
  · rintro ⟨tagged, location, leads, there⟩
    refine ⟨parts, rfl, ?_, tagged⟩
    rw [S3Site.readAt, located, leads, Option.bind_some]
    exact (whole location).mpr there

/-- Completing an upload is all or nothing if and only if the request is safe. -/
theorem complete_all_or_nothing_iff
    (answered : site.completeMultipart faults bucket key uploadId payload disk = some (disk', answer)) :
    site.AllOrNothing disk.tree disk'.tree bucket home key uploadId payload answer ↔
      site.Safe faults disk.tree bucket home key uploadId payload := by
  rcases completeMultipart_cases answered with ⟨⟨refusal, rfl⟩, grown, unmade⟩ | ⟨parts, opened, rfl, makes, as, completed⟩
  · have kept : site.AllOrNothing disk.tree disk'.tree bucket home key uploadId payload (.error refusal) :=
      ⟨fun old present => readAt_grown grown present, fun listed data present => readAt_grown grown present⟩
    exact iff_of_true kept fun parts listed makes => absurd makes (unmade parts listed)
  · have grown := grown_parentMade site (site.getS3FilePath bucket key) disk.tree
    cases completed with
    | @failed looped refusal ran left =>
      obtain ⟨left', leaves, as⟩ := looped_copyParts makes.room makes.leads grown.read (locate_partPath grown makes.upload) as ran
      rw [left, kept_iff makes (as.loseWrite makes.room)]
      constructor
      · intro same parts' listed _
        cases listed
        exact .inr ⟨leaves_uncombined leaves, fun held => (same held).imp_right fun same => ⟨left', leaves, same⟩⟩
      · intro safe held
        rcases safe parts rfl makes with ⟨all, combines, _⟩ | ⟨_, spared⟩
        · exact absurd combines (leaves_uncombined leaves all)
        · rcases spared held with absent | ⟨other, leaves', same⟩
          · exact .inl absent
          · rw [leaves_unique leaves leaves']
            exact .inr same
    | @done looped content object ran left =>
      obtain ⟨combines, as⟩ := looped_copyParts makes.room makes.leads grown.read (locate_partPath grown makes.upload) as ran
      rw [left, home_iff makes (as.loseWrite makes.room)]
      constructor
      · intro home' parts' listed _
        cases listed
        exact .inl ⟨content, combines, home'⟩
      · intro safe
        rcases safe parts rfl makes with ⟨all, combines', home'⟩ | ⟨never, _⟩
        · rw [combines_unique combines combines']
          exact home'
        · exact absurd combines (never content)

end Answer

section Faultless

variable {site : S3Site} {bucket key uploadId filePath tempDir : String} {parts : List MultipartPart} {content : Bytes}
variable {disk : Disk}

private theorem copyParts_whole
    (apart : ∀ part ∈ parts, site.resolve (join tempDir (toString part.partNumber)) ≠ site.resolve filePath) :
    site.copyParts {} filePath tempDir (parts.map fun part => (part, .whole)) content disk =
      some (site.combineParts filePath tempDir parts content disk) := by
  induction parts generalizing content disk with
  | nil => rfl
  | cons part rest ih =>
    have different := apart part List.mem_cons_self
    rw [List.map_cons, S3Site.copyParts, S3Site.combineParts]
    dsimp only
    generalize site.look .openFile (join tempDir (toString part.partNumber)) disk = opened
    obtain ⟨looked, node⟩ := opened
    cases node with
    | none => rfl
    | some node =>
      cases node with
      | dir => rfl
      | file data =>
        dsimp only
        rw [if_neg fun both => different both.1, ih fun other member => apart other (List.mem_cons_of_mem _ member)]
        split
        · rfl
        · rfl

/-- Without failures it is the handler of the store. -/
theorem completeMultipart_whole {payload : Except String (List MultipartPart)}
    (apart : ∀ parts, payload = .ok parts → ∀ part ∈ parts,
      site.resolve (join (site.uploadDir bucket uploadId) (toString part.partNumber)) ≠ site.objectAt bucket key) :
    site.completeMultipart {} bucket key uploadId (payload.map fun parts => parts.map fun part => (part, .whole)) disk =
      some (site.s3CompleteMultipart bucket key uploadId payload disk) := by
  rw [S3Site.completeMultipart, S3Site.s3CompleteMultipart]
  split
  · rfl
  · dsimp only
    generalize site.look .stat (site.uploadDir bucket uploadId) disk = found
    obtain ⟨looked, node⟩ := found
    cases node with
    | none => rfl
    | some node =>
      cases payload with
      | error reason => rfl
      | ok parts =>
        dsimp only [Except.map]
        generalize ((Path.parent (site.getS3FilePath bucket key)).elim looked fun parent =>
          (site.createDirAll parent looked).1) = prepared
        rw [show site.failing ({} : CompleteFaults).uncreated .createFile (site.getS3FilePath bucket key) prepared
          (site.createFile (site.getS3FilePath bucket key) [] prepared) =
            site.createFile (site.getS3FilePath bucket key) [] prepared from rfl]
        generalize site.createFile (site.getS3FilePath bucket key) [] prepared = created
        obtain ⟨opened, made⟩ := created
        cases made with
        | false => rfl
        | true =>
          dsimp only
          rw [copyParts_whole (apart parts rfl)]
          generalize site.combineParts (site.getS3FilePath bucket key) (site.uploadDir bucket uploadId) parts [] opened = looped
          obtain ⟨last, result⟩ := looped
          cases result with
          | error refusal => rfl
          | ok all =>
            dsimp only
            rw [List.length_map]
            rfl

end Faultless

section Photos

def begunPhotos : List S3Request := photoRequests.take 3

/-- The part that was uploaded, and one that was not. -/
def uploadedPart : ListedPart := (⟨1, "\"49f68a5c8493ec2c0bf489821c21fc3b\""⟩, .whole)

def missingPart : ListedPart := (⟨2, "\"d41d8cd98f00b204e9800998ecf8427e\""⟩, .whole)

theorem complete_all_or_nothing_iff_photos : ∃ store disk' answer, runLabels photoSite.request begunPhotos {} = some store ∧
    photoSite.completeMultipart {} "photos" "pets/dog.jpg" "id" (.ok [uploadedPart]) store.disk = some (disk', answer) ∧
    (photoSite.AllOrNothing store.disk.tree disk'.tree "photos" "pets/dog.jpg" "pets/dog.jpg" "id" (.ok [uploadedPart]) answer ↔
      photoSite.Safe {} store.disk.tree "photos" "pets/dog.jpg" "pets/dog.jpg" "id" (.ok [uploadedPart])) := by
  have ran : ((runLabels photoSite.request begunPhotos {}).bind fun store =>
      (photoSite.completeMultipart {} "photos" "pets/dog.jpg" "id" (.ok [uploadedPart]) store.disk).map fun _ => ()) =
      some () := by
    decide +kernel
  obtain ⟨store, begun, ran⟩ := Option.bind_eq_some_iff.mp ran
  obtain ⟨⟨disk', answer⟩, answered, _⟩ := Option.map_eq_some_iff.mp ran
  exact ⟨store, disk', answer, begun, answered, complete_all_or_nothing_iff answered⟩

/-- With a part that is missing the object of the key is lost, and with another key than that
of the upload its object is not there. -/
theorem complete_spoils_objects : ∃ store, runLabels photoSite.request begunPhotos {} = some store ∧
    (∃ disk' refusal, photoSite.completeMultipart {} "photos" "cat.jpg" "id" (.ok [uploadedPart, missingPart]) store.disk =
        some (disk', .error refusal) ∧
      ¬ photoSite.AllOrNothing store.disk.tree disk'.tree "photos" "cat.jpg" "cat.jpg" "id" (.ok [uploadedPart, missingPart])
        (.error refusal)) ∧
    ∃ disk' object, photoSite.completeMultipart {} "photos" "cat.jpg" "id" (.ok [uploadedPart]) store.disk =
        some (disk', .ok object) ∧
      ¬ photoSite.AllOrNothing store.disk.tree disk'.tree "photos" "pets/dog.jpg" "cat.jpg" "id" (.ok [uploadedPart])
        (.ok object) := by
  have seen : ((runLabels photoSite.request begunPhotos {}).bind fun store =>
      (photoSite.completeMultipart {} "photos" "cat.jpg" "id" (.ok [uploadedPart, missingPart]) store.disk).bind fun failed =>
      (photoSite.completeMultipart {} "photos" "cat.jpg" "id" (.ok [uploadedPart]) store.disk).map fun done =>
        (photoSite.readAt store.disk.tree (photoSite.getS3FilePath "photos" "cat.jpg"), failed.2.toBool,
          photoSite.readAt failed.1.tree (photoSite.getS3FilePath "photos" "cat.jpg"), done.2.toBool,
          photoSite.readAt done.1.tree (photoSite.getS3FilePath "photos" "pets/dog.jpg"))) =
      some (some [1, 2, 3], false, some [104, 105], true, none) := by
    decide +kernel
  obtain ⟨store, begun, seen⟩ := Option.bind_eq_some_iff.mp seen
  obtain ⟨⟨failedDisk, failed⟩, answered, seen⟩ := Option.bind_eq_some_iff.mp seen
  obtain ⟨⟨doneDisk, done⟩, answered', seen⟩ := Option.map_eq_some_iff.mp seen
  simp only [Prod.mk.injEq] at seen
  obtain ⟨old, isFailed, cut, isDone, missing⟩ := seen
  refine ⟨store, begun, ?_, ?_⟩
  · cases failed with
    | ok _ => cases isFailed
    | error refusal =>
      refine ⟨failedDisk, refusal, answered, fun kept => ?_⟩
      have same := kept.1 _ old
      rw [cut] at same
      exact absurd same (by decide)
  · cases done with
    | error _ => cases isDone
    | ok object =>
      refine ⟨doneDisk, object, answered', fun whole => ?_⟩
      obtain ⟨_, _, there, _⟩ := whole
      rw [missing] at there
      cases there

end Photos

end Veloce
