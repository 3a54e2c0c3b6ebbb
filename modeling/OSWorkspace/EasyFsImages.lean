import OSWorkspace.EasyFsEmptyWrites

/-!
# Images of the easy-fs packer

The packer makes a file system and creates a file for each app, named by the
file name up to its first dot.  If the names differ and everything fits, whoever
opens the image finds every app with its data, through a buffer of any length.
With two equal names the packer panics.
-/

namespace OSWorkspace

namespace EasyFs

open Exec

/-- The name of an app: its file name up to the first dot. -/
def appName (fileName : List UInt8) : Option Str :=
  match Str.fromUtf8 fileName with
  | some nameWithExt =>
      if 0x2E ∈ nameWithExt.bytes then
        Str.fromUtf8 (nameWithExt.bytes.takeWhile fun byte => byte ≠ 0x2E)
      else none
  | none => none

/-- Create a file for each of the apps that remain and write its data. -/
def packApps (fs : EasyFileSystem) (build : Build) (rootInode : Inode)
    (hostFile : Str → Option (List UInt8)) : List Str → Call Unit
  | [] => return ()
  | app :: apps => do
      let allData ← expect (hostFile app)
      let inode ← expect (← rootInode.create fs build app)
      let _ ← inode.writeAt fs build 0 allData
      packApps fs build rootInode hostFile apps

/-- Pack the apps of a source directory, whose data is in the host files. -/
def easyFsPack (build : Build) (source : List (List UInt8))
    (hostFile : Str → Option (List UInt8)) : Call Unit := do
  let efs ← EasyFileSystem.create build (16 * 2048) 1
  let rootInode ← efs.rootInode build
  let apps ← expect (source.mapM appName)
  packApps efs build rootInode hostFile apps

/-- Read on through a buffer until nothing is left; the loop has `rounds` rounds. -/
def Inode.readRest (self : Inode) (build : Build) (length : Nat) :
    (rounds offset : Nat) → Call (List UInt8)
  | 0, _ => panicking
  | rounds + 1, offset => do
      let bytes ← self.readAt build offset length
      if bytes.length = 0 then return []
      else do
        let others ← self.readRest build length rounds (offset + bytes.length)
        return bytes ++ others

/-- A loop with enough rounds reads to the end. -/
theorem Inode.run_readRest {self : Inode} {build : Build} {length : Nat} {volume : Volume}
    {bytes : List UInt8} (positive : 0 < length)
    (reads : ∀ offset ≤ bytes.length, (self.readAt build offset length).run volume =
      .ok ((bytes.drop offset).take length) volume)
    {rounds offset : Nat} (inside : offset ≤ bytes.length)
    (enough : bytes.length + length ≤ offset + rounds * length) :
    (self.readRest build length rounds offset).run volume = .ok (bytes.drop offset) volume := by
  induction rounds generalizing offset with
  | zero => omega
  | succ rounds ih =>
      rw [readRest, run_bind_ok (reads offset inside), List.length_take, List.length_drop]
      by_cases isEnd : bytes.length = offset
      · rw [if_pos (by omega), run_pure, List.drop_of_length_le isEnd.le]
      · rw [Nat.succ_mul] at enough
        have more : length ≤ rounds * length := by
          refine Nat.le_mul_of_pos_left length (Nat.pos_of_ne_zero fun noRound => ?_)
          rw [noRound] at enough
          omega
        have rest := ih (Nat.add_le_of_le_sub' inside (min_le_right length (bytes.length - offset)))
          (by omega)
        have behind : bytes.drop (offset + min length (bytes.length - offset)) =
            (bytes.drop offset).drop length := by
          rw [← List.drop_drop]
          rcases Nat.le_total length (bytes.length - offset) with fits | short
          · rw [Nat.min_eq_left fits]
          · rw [Nat.min_eq_right short, List.drop_of_length_le (List.length_drop).le,
              List.drop_of_length_le (List.length_drop.trans_le short)]
        rw [if_neg (by omega), run_bind_ok rest, run_pure, behind, List.take_append_drop]

/-- The blocks that the data of the apps needs. -/
def appBlocks (apps : List (Str × List UInt8)) : Nat :=
  (apps.map fun app => blocksOf app.2.length).sum

def File.app (file : File) : Str × List UInt8 := (file.name, file.bytes)

namespace Layout

/-- There is room for the apps and their names. -/
structure Packable (layout : Layout) (state : FileState) (apps : List (Str × List UInt8)) :
    Prop where
  fits : ∀ app ∈ apps, DirEntry.Fits app.1
  small : ∀ app ∈ apps, app.2.length ≤ sizeBound
  inArea : state.files.length + apps.length < 4 * layout.inodeBlocks
  inBitmap : state.files.length + apps.length < layout.inodeBitmap.maximum
  few : direntSz * (state.files.length + apps.length) ≤ sizeBound
  enough : blocksOf (direntSz * (state.files.length + apps.length)) + appBlocks apps ≤
    blocksOf (direntSz * state.files.length) + (layout.freeBlocks state.volume.disk).card

section Packing

variable {layout : Layout} {root : Inode} {state : FileState} {contents : Nat → List UInt8}
  {owned : Nat → List Nat} (catalogues : layout.Catalogues root state contents owned)

include catalogues

/-- The bytes of one file are replaced. -/
theorem Catalogues.update {index : Nat} {file : File} (isFile : state.files[index]? = some file)
    {later : Nat → Block} {content : List UInt8} {after : Nat → List Nat}
    (holds : layout.Holds later (state.names.length + 1)
      (Function.update contents (index + 1) content) after) :
    layout.Catalogues root ⟨⟨later, state.volume.locked⟩,
        state.files.set index { file with bytes := content }⟩
      (Function.update contents (index + 1) content) after := by
  have sameNames : (state.files.set index { file with bytes := content }).map File.name =
      state.names := by
    obtain ⟨inside, isName⟩ : ∃ inside : index < state.names.length,
        state.names[index] = file.name := by
      rw [← List.getElem?_eq_some_iff, FileState.names, List.getElem?_map, isFile, Option.map_some]
    rw [List.map_set]
    change state.names.set index file.name = state.names
    rw [← isName, List.set_getElem_self]
  refine ⟨catalogues.toTracks.update isFile holds, ?_, ?_⟩
  · rw [FileState.names, sameNames]
    exact catalogues.nodup
  · rw [FileState.names, sameNames]
    exact catalogues.fits

/-- A write to the start of an empty file, which may be empty itself. -/
theorem Catalogues.run_writeAt_start (build : Build) {index : Nat} {file : File}
    (isFile : state.files[index]? = some file) (empty : file.bytes = []) {buf : List UInt8}
    (bounded : buf.length ≤ sizeBound)
    (enough : blocksOf buf.length ≤ (layout.freeBlocks state.volume.disk).card) :
    ∃ after contents owned,
      (file.inode.writeAt layout.toEasyFileSystem build 0 buf).run state.volume =
        .ok buf.length after ∧
      layout.Catalogues root ⟨after, state.files.set index { file with bytes := buf }⟩
        contents owned := by
  have isInode := FileState.isInode isFile
  have holds := catalogues.lists.holds
  have isEmpty : contents (index + 1) = [] := (catalogues.bytes index file isFile).trans empty
  have isHandle := catalogues.inodes index file isFile
  by_cases noData : buf = []
  · subst noData
    have looks : LooksInside layout.totalBlocks state.volume.disk (layout.handle (index + 1))
        (contents (index + 1)).length 0 := by
      rw [isEmpty]
      exact Or.inr ⟨rfl, Or.inr ⟨by decide, fun _ none => absurd none List.not_mem_nil⟩⟩
    have harmless := (holds.harmless_offset_iff isInode build (Nat.zero_le _) (by
      rw [isEmpty]
      exact Nat.le_add_right _ _)).mpr looks [] (fun _ none => absurd none List.not_mem_nil)
    have isVolume : (⟨state.volume.disk, []⟩ : Volume) = state.volume := by
      rw [← catalogues.unlocked]
    rw [isVolume, ← isHandle] at harmless
    have kept : Function.update contents (index + 1) [] = contents := by
      rw [← isEmpty, Function.update_eq_self]
    exact ⟨_, _, _, harmless, catalogues.update isFile (kept.symm ▸ holds)⟩
  · obtain ⟨later, others, ran, laterHolds⟩ := holds.run_writeAt build isInode catalogues.isOpen
      noData ((Nat.zero_add _).trans_le bounded) (by
        rw [Nat.zero_add]
        exact le_trans enough (Nat.le_add_left _ _))
    have written : writtenAt (contents (index + 1)) 0 buf = buf := by
      simp [writtenAt, isEmpty]
    rw [written] at laterHolds
    rw [← isHandle] at ran
    exact ⟨_, _, _, ran, catalogues.update isFile laterHolds⟩

variable {build : Build} {hostFile : Str → Option (List UInt8)}

/-- One app is packed. -/
theorem Catalogues.run_packApp {app : Str × List UInt8} {apps : List (Str × List UInt8)}
    (packable : layout.Packable state (app :: apps)) (isNew : app.1 ∉ state.names)
    (isHost : hostFile app.1 = some app.2) (others : List Str) :
    ∃ inode after contents owned,
      (packApps layout.toEasyFileSystem build root hostFile (app.1 :: others)).run state.volume =
        (packApps layout.toEasyFileSystem build root hostFile others).run after ∧
      layout.Catalogues root ⟨after, state.files ++ [⟨app.1, inode, app.2⟩]⟩ contents owned ∧
      layout.Packable ⟨after, state.files ++ [⟨app.1, inode, app.2⟩]⟩ apps := by
  have length : state.names.length = state.files.length := List.length_map _
  obtain ⟨fits, small, inArea, inBitmap, few, enough⟩ := packable
  rw [List.length_cons] at inArea inBitmap few enough
  have isBlocks : appBlocks (app :: apps) = blocksOf app.2.length + appBlocks apps := rfl
  rw [isBlocks] at enough
  have oneMore : direntSz * (state.files.length + 1) ≤
      direntSz * (state.files.length + (apps.length + 1)) := Nat.mul_le_mul_left _ (by omega)
  have fewer := blocksOf_mono oneMore
  have room : layout.Room state.volume.disk state.names.length := by
    rw [length]
    exact ⟨by omega, by omega, le_trans oneMore few, by omega⟩
  obtain ⟨inode, middle, _, _, ranCreate, created⟩ :=
    catalogues.run_create build room (fits app List.mem_cons_self) isNew
  have cardBefore := catalogues.card_freeBlocks
  have cardCreated := created.card_freeBlocks
  rw [List.length_append, List.length_singleton, List.map_append, List.sum_append] at cardCreated
  have noBlocks : ([⟨app.1, inode, []⟩].map fun file : File => blocksOf file.bytes.length).sum =
      0 := (Nat.add_zero _).trans (rfl : blocksOf 0 = 0)
  rw [noBlocks] at cardCreated
  have isFile : (state.files ++ [⟨app.1, inode, []⟩])[state.files.length]? =
      some ⟨app.1, inode, []⟩ := by
    rw [List.getElem?_append_right (le_refl _), Nat.sub_self, List.getElem?_cons_zero]
  obtain ⟨after, _, _, ranWrite, written⟩ := created.run_writeAt_start build isFile rfl
    (small app List.mem_cons_self) (by omega)
  have isSet : (state.files ++ [File.mk app.1 inode []]).set state.files.length
      (File.mk app.1 inode app.2) = state.files ++ [⟨app.1, inode, app.2⟩] := by
    rw [List.set_append_right _ _ (le_refl _), Nat.sub_self, List.set_cons_zero]
  rw [isSet] at written
  have cardWritten := written.card_freeBlocks
  rw [List.length_append, List.length_singleton, List.map_append, List.sum_append] at cardWritten
  have someBlocks : ([⟨app.1, inode, app.2⟩].map fun file : File =>
      blocksOf file.bytes.length).sum = blocksOf app.2.length := Nat.add_zero _
  rw [someBlocks] at cardWritten
  have moved : state.files.length + 1 + apps.length = state.files.length + (apps.length + 1) := by
    omega
  refine ⟨inode, after, _, _, ?_, written, fun other isOther =>
    fits other (List.mem_cons_of_mem _ isOther), fun other isOther =>
      small other (List.mem_cons_of_mem _ isOther), ?_, ?_, ?_, ?_⟩
  · rw [packApps, isHost, run_bind_ok (run_expect_some _ _), run_bind_ok ranCreate,
      run_bind_ok (run_expect_some _ _), run_bind_ok ranWrite]
  · rwa [List.length_append, List.length_singleton, moved]
  · rwa [List.length_append, List.length_singleton, moved]
  · rwa [List.length_append, List.length_singleton, moved]
  · rw [List.length_append, List.length_singleton, moved]
    change _ ≤ _ + (layout.freeBlocks after.disk).card
    change (layout.freeBlocks after.disk).card + _ + _ = _ at cardWritten
    omega

end Packing

section Packed

variable {layout : Layout} {root : Inode} {build : Build} {hostFile : Str → Option (List UInt8)}
  {state : FileState} {contents : Nat → List UInt8} {owned : Nat → List Nat}
  {apps : List (Str × List UInt8)}

theorem names_append (state : FileState) (after : Volume) (inode : Inode)
    (app : Str × List UInt8) (apps : List (Str × List UInt8)) :
    (FileState.mk after (state.files ++ [⟨app.1, inode, app.2⟩])).names ++ apps.map Prod.fst =
      state.names ++ (app :: apps).map Prod.fst := by
  simp [FileState.names]

/-- Apps with different names are packed behind the others. -/
theorem Catalogues.run_packApps (catalogues : layout.Catalogues root state contents owned)
    (packable : layout.Packable state apps)
    (hosts : ∀ app ∈ apps, hostFile app.1 = some app.2)
    (nodup : (state.names ++ apps.map Prod.fst).Nodup) :
    ∃ after files contents owned,
      (packApps layout.toEasyFileSystem build root hostFile (apps.map Prod.fst)).run
        state.volume = .ok () after ∧
      layout.Catalogues root ⟨after, files⟩ contents owned ∧
      files.map File.app = state.files.map File.app ++ apps := by
  induction apps generalizing state contents owned with
  | nil => exact ⟨_, _, _, _, rfl, catalogues, (List.append_nil _).symm⟩
  | cons app apps ih =>
      have isNew : app.1 ∉ state.names := by
        intro isName
        exact (List.nodup_append.mp nodup).2.2 _ isName _ List.mem_cons_self rfl
      obtain ⟨inode, middle, _, _, ran, next, nextPackable⟩ := catalogues.run_packApp packable isNew
        (hosts app List.mem_cons_self) (apps.map Prod.fst)
      obtain ⟨after, files, _, _, ranOthers, packed, isFiles⟩ := ih next nextPackable
        (fun other isOther => hosts other (List.mem_cons_of_mem _ isOther))
        (by rwa [names_append])
      refine ⟨after, files, _, _, ran.trans ranOthers, packed, ?_⟩
      rw [isFiles, List.map_append, List.append_assoc]
      rfl

/-- With two equal names the creation of the second finds the first. -/
theorem Catalogues.run_packApps_panic (catalogues : layout.Catalogues root state contents owned)
    (packable : layout.Packable state apps)
    (hosts : ∀ app ∈ apps, hostFile app.1 = some app.2)
    (twice : ¬ (state.names ++ apps.map Prod.fst).Nodup) :
    (packApps layout.toEasyFileSystem build root hostFile (apps.map Prod.fst)).run
      state.volume = .panic := by
  induction apps generalizing state contents owned with
  | nil => exact absurd ((List.append_nil state.names).symm ▸ catalogues.nodup) twice
  | cons app apps ih =>
      have isHost := hosts app List.mem_cons_self
      by_cases isName : app.1 ∈ state.names
      · rw [List.map_cons, packApps, isHost, run_bind_ok (run_expect_some _ _),
          run_bind_ok (catalogues.run_create_again isName)]
        exact run_bind_panic (run_panicking _)
      · obtain ⟨inode, middle, _, _, ran, next, nextPackable⟩ :=
          catalogues.run_packApp packable isName isHost (apps.map Prod.fst)
        exact ran.trans (ih next nextPackable
          (fun other isOther => hosts other (List.mem_cons_of_mem _ isOther))
          (by rwa [names_append]))

end Packed

/-- The apps of files are found with their data. -/
theorem Catalogues.finds_app {layout : Layout} {root : Inode} {state : FileState}
    {contents : Nat → List UInt8} {owned : Nat → List Nat}
    (catalogues : layout.Catalogues root state contents owned) (build : Build)
    {app : Str × List UInt8} (isApp : app ∈ state.files.map File.app) :
    ∃ inode, (root.find layout.toEasyFileSystem build app.1).run state.volume =
        .ok (some inode) state.volume ∧
      ∀ length rounds : Nat, 0 < length → length < 2 ^ 63 →
        app.2.length + length ≤ rounds * length →
          (inode.readRest build length rounds 0).run state.volume = .ok app.2 state.volume := by
  obtain ⟨file, isFile, rfl⟩ := List.mem_map.mp isApp
  obtain ⟨index, inside, isIndex⟩ := List.mem_iff_getElem.mp isFile
  have isAt : state.files[index]? = some file := List.getElem?_eq_some_iff.mpr ⟨inside, isIndex⟩
  refine ⟨file.inode, (catalogues.findsCreated build).finds file isFile,
    fun length rounds positive short enough => ?_⟩
  have bounded : (contents (index + 1)).length ≤ 8468480 :=
    (catalogues.lists.holds.stores _ (FileState.isInode isAt)).bounded
  rw [catalogues.bytes index file isAt] at bounded
  have ran := @Inode.run_readRest file.inode build length state.volume file.bytes positive
    (fun offset inFile => catalogues.run_readAt build isAt (fun _ => by omega) (by omega) short)
    rounds 0 (Nat.zero_le _) ((Nat.zero_add (rounds * length)).symm ▸ enough)
  rwa [List.drop_zero] at ran

end Layout

/-- An image holds apps: whoever opens it lists their names in order, finds each
with its data, through a buffer of any length, and finds no others. -/
def HoldsApps (image : Volume) (apps : List (Str × List UInt8)) : Prop :=
  ∀ build : Build, ∃ fs root,
    (EasyFileSystem.openVolume build).run image = .ok fs image ∧
    (fs.rootInode build).run image = .ok root image ∧
    (root.ls build).run image = .ok (apps.map Prod.fst) image ∧
    (∀ app ∈ apps, ∃ inode, (root.find fs build app.1).run image = .ok (some inode) image ∧
      ∀ length rounds : Nat, 0 < length → length < 2 ^ 63 →
        app.2.length + length ≤ rounds * length →
          (inode.readRest build length rounds 0).run image = .ok app.2 image) ∧
    ∀ name ∉ apps.map Prod.fst, (root.find fs build name).run image = .ok none image

/-- Apps with different names are packed, and the image holds them; with two
equal names the packer panics. -/
theorem run_easyFsPack {build : Build} {start : Volume} (unlocked : start.locked = [])
    {source : List (List UInt8)} {hostFile : Str → Option (List UInt8)}
    {apps : List (Str × List UInt8)} (isSource : source.mapM appName = some (apps.map Prod.fst))
    (hosts : ∀ app ∈ apps, hostFile app.1 = some app.2)
    (fits : ∀ app ∈ apps, DirEntry.Fits app.1) (small : ∀ app ∈ apps, app.2.length ≤ sizeBound)
    (few : apps.length < 4096)
    (enough : blocksOf (direntSz * apps.length) + appBlocks apps ≤ 31734) :
    ((apps.map Prod.fst).Nodup → ∃ image,
        (easyFsPack build source hostFile).run start = .ok () image ∧ HoldsApps image apps) ∧
      (¬ (apps.map Prod.fst).Nodup → (easyFsPack build source hostFile).run start = .panic) := by
  have catalogues := catalogues_packed unlocked
  have ranPack : (easyFsPack build source hostFile).run start =
      (packApps (madeFileSystem 32768 1) build ⟨2, 0⟩ hostFile (apps.map Prod.fst)).run
        (madeVolume start 32768 1) := by
    have sameSize : (16 * 2048 : UInt32) = 32768 := rfl
    rw [easyFsPack, sameSize, run_bind_ok (create_packed build unlocked),
      run_bind_ok (rootInode_packed build _), isSource, run_bind_ok (run_expect_some _ _)]
  have packable : (madeLayout 32768 1 inodesFit_packed).Packable
      ⟨madeVolume start 32768 1, []⟩ apps := by
    have inodes : 4 * (madeLayout 32768 1 inodesFit_packed).inodeBlocks = 4096 := rfl
    have bits : (madeLayout 32768 1 inodesFit_packed).inodeBitmap.maximum = 4096 := rfl
    refine ⟨fits, small, ?_, ?_, ?_, ?_⟩
    · rw [List.length_nil, Nat.zero_add, inodes]
      exact few
    · rw [List.length_nil, Nat.zero_add, bits]
      exact few
    · rw [List.length_nil, Nat.zero_add]
      change 32 * apps.length ≤ 8468480
      omega
    · rw [card_freeBlocks_packed, List.length_nil, Nat.zero_add]
      exact le_trans enough (Nat.le_add_left _ _)
  constructor
  · intro nodup
    obtain ⟨image, files, _, _, ran, packed, isFiles⟩ :=
      @Layout.Catalogues.run_packApps _ _ build hostFile _ _ _ _ catalogues packable hosts nodup
    rw [List.map_nil, List.nil_append] at isFiles
    have isNames : (FileState.mk image files).names = apps.map Prod.fst := by
      rw [← isFiles, List.map_map]
      rfl
    refine ⟨image, ranPack.trans ran, fun later => ⟨_, _, ?_, rootInode_packed later image, ?_⟩⟩
    · refine Layout.run_openVolume (dense_madeLayout inodesFit_packed) later ?_
        packed.lists.holds.superBlock
      rw [packed.unlocked]
      exact List.not_mem_nil
    · have found := packed.findsCreated later
      rw [isNames.symm]
      exact ⟨found.lists, fun app isApp => packed.finds_app later (isFiles ▸ isApp), found.others⟩
  · intro twice
    exact ranPack.trans (catalogues.run_packApps_panic packable hosts twice)

/-- An app without data and one with three bytes. -/
def twoApps : List (Str × List UInt8) := [(⟨[0x6C, 0x73], rfl⟩, []), (⟨[0x73, 0x68], rfl⟩, [1, 2, 3])]

theorem run_easyFsPack_twoApps : ∃ image,
    (easyFsPack ⟨true⟩ [[0x6C, 0x73, 0x2E], [0x73, 0x68, 0x2E, 0x72]] fun app =>
      twoApps.lookup app).run blankVolume = .ok () image ∧ HoldsApps image twoApps :=
  (run_easyFsPack rfl (by decide) (by decide) (by
    intro app isApp
    simp only [twoApps, List.mem_cons, List.not_mem_nil, or_false] at isApp
    rcases isApp with rfl | rfl
    · exact ⟨by decide, by decide⟩
    · exact ⟨by decide, by decide⟩) (by decide) (by decide) (by decide)).1 (by decide)

end EasyFs

end OSWorkspace
