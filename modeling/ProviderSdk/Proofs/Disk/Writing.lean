import ProviderSdk.Proofs.Disk.Actions
import ProviderSdk.Proofs.Disk.Ways

/-!
# Writing to disks

Writing and copying change what stands at the place of their target and nothing else. Making the
directories that lead to a target leaves all files as they are; directories are made only at places
that the path of the target passes, and only where nothing stood.
-/

namespace ProviderSdk

namespace Disk

/-- Something is put in at a place where no directory stands. -/
structure Puts (d : Disk) (place : List String) (what : Found) (d' : Disk) : Prop where
  workingDirectory : d'.workingDirectory = d.workingDirectory
  notDirectory : d.found place ≠ .directory
  found : d'.found = Function.update d.found place what

def fileAt (d : Disk) (place : List String) : Option ByteArray := (d.found place).bytes?

variable {d d' : Disk} {p source target : Path} {here : List String} {what : Found} {bytes : ByteArray}

theorem Puts.sound (h : Puts d here what d') (hd : d.Sound) : d'.Sound := by
  have hne : d.workingDirectory ≠ here := by
    rintro rfl
    exact h.notDirectory hd
  rw [Sound, h.workingDirectory, h.found, Function.update_of_ne hne]
  exact hd

theorem Puts.fileAt (h : Puts d here what d') : d'.fileAt = Function.update d.fileAt here what.bytes? := by
  funext other
  by_cases hother : other = here
  · simp [Disk.fileAt, h.found, hother]
  · simp [Disk.fileAt, h.found, hother]

theorem place_congr (h : d'.workingDirectory = d.workingDirectory) : d'.place = d.place := by
  funext p
  rw [place, place, h]

/-- A second thing put in at a place stands there instead of the first. -/
theorem Puts.again {d'' : Disk} {other : Found} (h : Puts d here what d') (h' : Puts d' here other d'') :
    Puts d here other d'' where
  workingDirectory := h'.workingDirectory.trans h.workingDirectory
  notDirectory := h.notDirectory
  found := by rw [h'.found, h.found, Function.update_idem]

theorem puts_putAt {node : DiskNode} (hreached : Reached d.root here) (hplace : d.found here ≠ .directory)
    (hnode : ∀ first rest, node.found (first :: rest) = .nothing) :
    Puts d here node.toFound (d.putAt here node) := by
  obtain hdirectory | ⟨parent, name, rfl, hparent⟩ := hreached
  · exact absurd hdirectory hplace
  · exact ⟨rfl, hplace, DiskNode.found_put_eq_update hparent hplace hnode⟩

theorem found_ne_directory (h : ∀ entries, d.root.get? here ≠ some (.directory entries)) :
    d.found here ≠ .directory := by
  intro hfound
  rw [found, DiskNode.found] at hfound
  cases hnode : d.root.get? here with
  | none => simp [hnode] at hfound
  | some node =>
    cases node with
    | directory entries => exact h entries hnode
    | file bytes => simp [hnode, DiskNode.toFound] at hfound

/-- A directory that is made stands where nothing stood, at the place of its path. -/
theorem makeDirectory_ok (hd : d.Sound) (h : d.makeDirectory p = .ok d') :
    d.found (d.place p) = .nothing ∧ Puts d (d.place p) .directory d' := by
  unfold makeDirectory at h
  split at h
  · cases h
  · obtain ⟨place, hplace, h⟩ := bind_eq_ok.mp h
    obtain ⟨hplace, hreached⟩ := locate_ok hd hplace
    obtain rfl : place = d.place p := hplace.trans (place_trimmed d p)
    cases hnode : d.root.get? (d.place p) with
    | some node => simp [hnode] at h
    | none =>
      simp only [hnode] at h
      cases h
      have hfound : d.found (d.place p) = .nothing := by simp [found, DiskNode.found, hnode]
      have hnot : d.found (d.place p) ≠ .directory := by simp [hfound]
      exact ⟨hfound, puts_putAt hreached hnot (fun _ _ => DiskNode.found_empty_cons _ _)⟩

theorem writeBytes_ok (hd : d.Sound) (h : d.writeBytes p bytes = .ok d') :
    Puts d (d.place p) (.file bytes) d' := by
  unfold writeBytes at h
  split at h
  · cases h
  · obtain ⟨place, hplace, h⟩ := bind_eq_ok.mp h
    obtain ⟨rfl, hreached⟩ := locate_ok hd hplace
    dsimp only at h
    split at h
    · cases h
    · next hnot =>
      cases h
      exact puts_putAt hreached (found_ne_directory hnot) (fun _ _ => DiskNode.found_file_cons bytes _ _)

/-- A copy brings what its source holds once the target is empty. -/
theorem copy_ok (hd : d.Sound) (h : d.copy source target = .ok d') :
    ∃ bytes, Function.update d.fileAt (d.place target) (some .empty) (d.place source) = some bytes ∧
      Puts d (d.place target) (.file bytes) d' := by
  obtain ⟨node, hnode, h⟩ := bind_eq_ok.mp h
  cases node with
  | directory entries => cases h
  | file old =>
    obtain ⟨emptied, hemptied, h⟩ := bind_eq_ok.mp h
    obtain ⟨bytes, hbytes, h⟩ := bind_eq_ok.mp h
    -- The target is emptied first, and then the source is read, which may be the target.
    have hfirst := writeBytes_ok hd hemptied
    have hsecond := writeBytes_ok (hfirst.sound hd) h
    rw [place_congr hfirst.workingDirectory] at hsecond
    refine ⟨bytes, ?_, hfirst.again hsecond⟩
    obtain ⟨node, hnode, hread⟩ := bind_eq_ok.mp hbytes
    cases node with
    | directory entries => cases hread
    | file read =>
      cases hread
      have hfound := node_ok (hfirst.sound hd) hnode
      rw [place_congr hfirst.workingDirectory] at hfound
      have hfile : emptied.fileAt (d.place source) = some bytes := by rw [fileAt, hfound]; rfl
      rw [hfirst.fileAt] at hfile
      exact hfile

/-- A disk comes from another and has certain files at their places. -/
structure Follows (d : Disk) (files : List String → Option ByteArray) (d' : Disk) : Prop where
  workingDirectory : d'.workingDirectory = d.workingDirectory
  sound : d'.Sound
  files : d'.fileAt = files

/-- A disk has the files of another, each at its place; directories may have been added. -/
abbrev KeepsFiles (d d' : Disk) : Prop := Follows d d.fileAt d'

theorem Follows.refl (hd : d.Sound) : KeepsFiles d d := ⟨rfl, hd, rfl⟩

theorem Follows.trans {d'' : Disk} {files files' : List String → Option ByteArray} (h : Follows d files d')
    (h' : Follows d' files' d'') : Follows d files' d'' :=
  ⟨h'.workingDirectory.trans h.workingDirectory, h'.sound, h'.files⟩

theorem Puts.follows (h : Puts d here what d') (hd : d.Sound) :
    Follows d (Function.update d.fileAt here what.bytes?) d' :=
  ⟨h.workingDirectory, h.sound hd, h.fileAt⟩

/-- A disk comes from another. It may differ at places that are written to; at other places
directories may have been made where nothing stood, and all else is as it was. -/
structure ChangesOnly (d : Disk) (made written : List String → Prop) (d' : Disk) : Prop where
  workingDirectory : d'.workingDirectory = d.workingDirectory
  sound : d'.Sound
  found : ∀ place, d'.found place = d.found place ∨ written place ∨
    (made place ∧ d.found place = .nothing ∧ d'.found place = .directory)

variable {made written made' written' : List String → Prop}

theorem ChangesOnly.refl (hd : d.Sound) : ChangesOnly d made written d := ⟨rfl, hd, fun _ => .inl rfl⟩

theorem ChangesOnly.trans {d'' : Disk} (h : ChangesOnly d made written d')
    (h' : ChangesOnly d' made written d'') :
    ChangesOnly d made written d'' := by
  refine ⟨h'.workingDirectory.trans h.workingDirectory, h'.sound, fun place => ?_⟩
  obtain hsame' | hwritten | ⟨hmade, hnothing, hdirectory⟩ := h'.found place
  · rw [hsame']
    exact h.found place
  · exact .inr (.inl hwritten)
  · obtain hsame | hwritten | ⟨-, hnothing', -⟩ := h.found place
    · exact .inr (.inr ⟨hmade, hsame ▸ hnothing, hdirectory⟩)
    · exact .inr (.inl hwritten)
    · exact .inr (.inr ⟨hmade, hnothing', hdirectory⟩)

theorem ChangesOnly.mono (h : ChangesOnly d made written d') (hmade : ∀ place, made place → made' place)
    (hwritten : ∀ place, written place → written' place) : ChangesOnly d made' written' d' :=
  ⟨h.workingDirectory, h.sound, fun place =>
    (h.found place).imp_right (Or.imp (hwritten place) (And.imp_left (hmade place)))⟩

theorem ChangesOnly.keepsFiles (h : ChangesOnly d made (fun _ => False) d') : KeepsFiles d d' := by
  refine ⟨h.workingDirectory, h.sound, funext fun place => ?_⟩
  rw [fileAt, fileAt]
  obtain hsame | hwritten | ⟨-, hnothing, hdirectory⟩ := h.found place
  · rw [hsame]
  · exact hwritten.elim
  · rw [hnothing, hdirectory]
    rfl

theorem changesOnly_makeDirectory (hd : d.Sound) (h : d.makeDirectory p = .ok d') :
    ChangesOnly d (d.Passes p) (fun _ => False) d' := by
  obtain ⟨hnothing, hput⟩ := makeDirectory_ok hd h
  refine ⟨hput.workingDirectory, hput.sound hd, fun place => ?_⟩
  rw [hput.found]
  by_cases hplace : place = d.place p
  · rw [hplace, Function.update_self]
    exact .inr (.inr ⟨passes_place d p, hnothing, rfl⟩)
  · exact .inl (Function.update_of_ne hplace _ _)

theorem Puts.changesOnly (h : Puts d here what d') (hd : d.Sound) :
    ChangesOnly d made (fun place => place = here) d' := by
  refine ⟨h.workingDirectory, h.sound hd, fun place => ?_⟩
  rw [h.found]
  by_cases hplace : place = here
  · exact .inr (.inl hplace)
  · exact .inl (Function.update_of_ne hplace _ _)

end Disk

namespace OnDisk

/-- What making a directory comes to where something is in its way: a directory may be. -/
def presentOr (d : Disk) (p : Path) (e : DiskError) : Except DiskError Unit × Disk :=
  if d.isDirectory p then (.ok (), d) else (.error e, d)

theorem run_makeDirectoriesFrom_succ (fuel : Nat) (p : Path) (d : Disk) :
    (makeDirectoriesFrom (fuel + 1) p).run d =
      if p.text = "" then (.ok (), d)
      else match d.makeDirectory p with
        | .ok d' => (.ok (), d')
        | .error .notFound =>
          match p.parent? with
          | none => (.error .notFound, d)
          | some parent =>
            match (makeDirectoriesFrom fuel parent).run d with
            | (.error e, between) => (.error e, between)
            | (.ok (), between) =>
              match between.makeDirectory p with
              | .ok d' => (.ok (), d')
              | .error e => presentOr between p e
        | .error e => presentOr d p e := by
  have hpresent (d : Disk) (e : DiskError) :
      (do if (← getThe Disk).isDirectory p then return else throw e : OnDisk DiskError Unit).run d =
        presentOr d p e := by
    rw [run_look, presentOr]
    split <;> rfl
  rw [makeDirectoriesFrom]
  split
  · rfl
  · rw [run_look]
    cases d.makeDirectory p with
    | ok d' => rfl
    | error e =>
      cases e with
      | notFound =>
        cases p.parent? with
        | none => rfl
        | some parent =>
          dsimp only
          rw [run_bind]
          generalize (makeDirectoriesFrom fuel parent).run d = made
          obtain ⟨_ | u, between⟩ := made
          · rfl
          · dsimp only
            rw [run_look]
            cases between.makeDirectory p with
            | ok d' => rfl
            | error e => exact hpresent between e
      | _ => exact hpresent d _

/-- Whether or not all directories could be made, nothing but directories that the path passes has
been made. -/
theorem changesOnly_makeDirectoriesFrom (fuel : Nat) (p : Path) {d : Disk} (hd : d.Sound) :
    d.ChangesOnly (d.Passes p) (fun _ => False) ((makeDirectoriesFrom fuel p).run d).2 := by
  have hpresent {d : Disk} (hd : d.Sound) (p : Path) (e : DiskError) :
      d.ChangesOnly (d.Passes p) (fun _ => False) (presentOr d p e).2 := by
    rw [presentOr]
    split <;> exact .refl hd
  -- Some directories may have been made when the last of them cannot be.
  induction fuel generalizing p d with
  | zero => exact .refl hd
  | succ fuel ih =>
    rw [run_makeDirectoriesFrom_succ]
    split
    · exact .refl hd
    · cases hmade : d.makeDirectory p with
      | ok d' => exact Disk.changesOnly_makeDirectory hd hmade
      | error e =>
        cases e with
        | notFound =>
          cases hp : p.parent? with
          | none => exact .refl hd
          | some parent =>
            have hparent := (ih parent hd).mono (fun _ => Disk.Passes.of_parent? hp) (fun _ => id)
            dsimp only
            generalize (makeDirectoriesFrom fuel parent).run d = made at hparent
            obtain ⟨_ | u, between⟩ := made
            · exact hparent
            · have hway : between.Passes p = d.Passes p := Disk.passes_congr hparent.workingDirectory p
              dsimp only
              cases hlast : between.makeDirectory p with
              | ok d' => exact hparent.trans (hway ▸ Disk.changesOnly_makeDirectory hparent.sound hlast)
              | error e => exact hparent.trans (hway ▸ hpresent hparent.sound p e)
        | _ => exact hpresent hd p _

theorem changesOnly_makeDirectories (p : Path) {d : Disk} (hd : d.Sound) :
    d.ChangesOnly (d.Passes p) (fun _ => False) ((makeDirectories p).run d).2 :=
      changesOnly_makeDirectoriesFrom _ p hd

theorem keepsFiles_makeDirectories (p : Path) {d : Disk} (hd : d.Sound) :
    Disk.KeepsFiles d ((makeDirectories p).run d).2 := (changesOnly_makeDirectories p hd).keepsFiles

end OnDisk

end ProviderSdk
