import CaribeOS.Hfs.RecordAdded

/-!
# Calls of the scripts one after the other

`updateImage` and `createRootFile` each mount the image anew. `Calls` relates two images if the second
comes out of the first by calls that succeed. `calls_keep_accounts`: if the accounts of the first image
are right, so are those of the second.
-/

namespace CaribeOS.HfsScript

open FileScript Extents Ownership

/-! ## A replacement that succeeds -/

section Update

variable {img payload : Buf} {hfs : HFSPlusImage} {path : List Char} {allowGrow : Bool} {alloc : ℕ}
  {ws : List Write}

/-- The fork that the record at `pos` describes. -/
def Contents.forkOf (hfs : HFSPlusImage) (c : Contents) (pos : ℕ × ℕ) : Fork :=
  forkAt (c.node pos.1) (c.dataOffset hfs pos + 88)

theorem Contents.blocks_forkOf (c : Contents) (hfs : HFSPlusImage) (pos : ℕ × ℕ) :
    blocks (c.forkOf hfs pos).extents = c.blocksOf hfs (.data pos) := blocks_forkAt _ _

/-- **What a replacement has written**, if it succeeds: the payload fits and stands in the old blocks,
or the file is moved to a free run. -/
theorem Sound.updateImage_cases (s : Sound img hfs)
    (hrun : updateImage path payload allowGrow img = (.ok alloc, ws)) :
    ∃ pos, (contents hfs img).Visited hfs pos ∧ (contents hfs img).IsFile hfs pos ∧
      (contents hfs img).PathLeads hfs 2 (path.parts '/') pos ∧
      ((payload.size ≤ ((contents hfs img).forkOf hfs pos).allocatedBlocks * hfs.blockSize ∧
          ∃ dws nws b', ws = dws ++ nws ∧
            Stores hfs (contents hfs img) payload pos ((contents hfs img).forkOf hfs pos).extents
              dws nws b') ∨
        ∃ start bm vh bws free dws nws b', ws = ⟨1024, vh⟩ :: bws ++ (dws ++ nws) ∧
          Reserves hfs (contents hfs img) ((contents hfs img).blocksOf hfs (.data pos))
            (ceilDiv payload.size hfs.blockSize) start bm ∧
          free + ceilDiv payload.size hfs.blockSize
            = hfs.freeBlocks + ((contents hfs img).blocksOf hfs (.data pos)).length ∧
          HeaderPut (contents hfs img) vh free ∧
          PutsInOrder hfs.blockSize (bitmapBlocks hfs) 0 bm hfs.allocation.size bws ∧
          Stores hfs (contents hfs img) payload pos
            [(start, ceilDiv payload.size hfs.blockSize)] dws nws b') := by
  cases hfind : findFile hfs img path with
  | error e =>
    rw [s.updateImage_notFound hfind] at hrun
    cases hrun
  | ok found =>
    obtain ⟨pos, hat, hvisited, htype, hpath⟩ := s.findFile_found hfind
    have hfile := s.isFile_of_visited hvisited htype
    refine ⟨pos, hvisited, hfile, hpath, ?_⟩
    rcases Nat.lt_or_ge (((contents hfs img).forkOf hfs pos).allocatedBlocks * hfs.blockSize)
      payload.size with hgrow | hroom
    · rcases s.updateImage_grow allowGrow hfind hat hfile rfl hgrow with
        ⟨⟨e, herror⟩, -⟩ | ⟨-, start, bm, vh,
        bws, free, dws, nws, b', alloc', hok, hreserves, hcount, hheader, hputs, hstores⟩
      · rw [hrun] at herror
        cases herror
      · rw [← Contents.blocks_forkOf, ← allocatedBlocks_eq]
        exact Or.inr ⟨start, bm, vh, bws, free, dws, nws, b', congrArg Prod.snd (hrun.symm.trans hok),
          hreserves, hcount, hheader, hputs, hstores⟩
    · obtain ⟨dws, nws, b', hok, hstores⟩ := s.updateImage_inPlace allowGrow hfind hat hfile rfl hroom
      exact Or.inl ⟨hroom, dws, nws, b', congrArg Prod.snd (hrun.symm.trans hok), hstores⟩

/-- **A successful replacement** keeps the accounts right. -/
theorem Accounted.replaced (a : Accounted img hfs)
    (hrun : updateImage path payload allowGrow img = (.ok alloc, ws)) :
    ∃ hfs', Accounted (img.writes ws) hfs' := by
  have s := a.sound
  obtain ⟨pos, hvisited, hfile, -, ⟨-, dws, nws, b', rfl, hstores⟩ | ⟨start, bm, vh, bws, free, dws, nws,
    b', rfl, hreserves, hcount, hheader, hputs, hstores⟩⟩ := s.updateImage_cases hrun
  · have hblocks := (contents hfs img).blocks_forkOf hfs pos
    obtain ⟨hsize, hcontents⟩ := s.contents_inPlace hvisited hfile hblocks hstores
    exact ⟨hfs, a.inPlace hsize hcontents ⟨hstores.written, by rw [hcontents], s.leaf, hfile⟩ hblocks⟩
  · obtain ⟨hsize, hcontents⟩ :=
      s.contents_moved hvisited hfile hheader hreserves hputs.all hstores
    exact ⟨_, Accounted.moved hsize hcontents
      ⟨hstores.written, by rw [hcontents], s.leaf, hfile⟩ hheader hreserves a hcount⟩

end Update

/-! ## Runs -/

/-- A call of one of the two scripts. -/
inductive Call where
  | replace (path : List Char) (payload : Buf) (allowGrow : Bool)
  | create (path : List Char) (payload : Buf)

/-- Whether the call succeeds, and its writes. -/
def Call.run : Call → Buf → Bool × List Write
  | .replace path payload allowGrow, img =>
    ((updateImage path payload allowGrow img).1.isOk, (updateImage path payload allowGrow img).2)
  | .create path payload, img =>
    ((createRootFile path payload img).1.isOk, (createRootFile path payload img).2)

/-- The images that calls lead to, one after the other, if all of them succeed. -/
inductive Calls (img : Buf) : Buf → Prop
  | none : Calls img img
  | call {img' : Buf} (call : Call) : Calls img img' → (call.run img').1 = true →
    Calls img (img'.writes (call.run img').2)

theorem exists_of_isOk {ε α : Type} {r : Except ε α × List Write} (h : r.1.isOk = true) :
    ∃ a, r = (.ok a, r.2) := by
  obtain ⟨_ | a, ws⟩ := r
  · cases h
  · exact ⟨a, rfl⟩

theorem Accounted.call {img : Buf} {hfs : HFSPlusImage} (a : Accounted img hfs) (call : Call)
    (h : (call.run img).1 = true) : ∃ hfs', Accounted (img.writes (call.run img).2) hfs' := by
  cases call with
  | replace path payload allowGrow =>
    rw [Call.run] at h ⊢
    dsimp only at h ⊢
    obtain ⟨alloc, hrun⟩ := exists_of_isOk (r := updateImage path payload allowGrow img) h
    exact a.replaced hrun
  | create path payload =>
    rw [Call.run] at h ⊢
    dsimp only at h ⊢
    obtain ⟨_, hrun⟩ := exists_of_isOk (r := createRootFile path payload img) h
    exact ⟨_, a.created hrun⟩

/-- **The accounts stay right** over any number of calls that succeed. -/
theorem calls_keep_accounts {img img' : Buf} (hcalls : Calls img img')
    (haccounted : ∃ hfs, Accounted img hfs) : ∃ hfs, Accounted img' hfs := by
  induction hcalls with
  | none => exact haccounted
  | call call _ h ih =>
    obtain ⟨hfs, a⟩ := ih
    exact a.call call h

theorem accounted_threeFiles : Accounted threeFiles threeFilesVolume where
  sound := sound_threeFiles
  bitmap_size := by decide
  free := by decide

/-- Two calls: the file `b` grows to two blocks, and a file `d` is created. -/
def growB : Call := .replace ['/', 'b'] ⟨5000, fun _ ↦ 66⟩ true

def createD : Call := .create ['/', 'd'] ⟨1, fun _ ↦ 68⟩

theorem calls_keep_accounts_threeFiles :
    ∃ img', Calls threeFiles img' ∧ img'.byte 1075 = 9 ∧ ∃ hfs, Accounted img' hfs := by
  have hgrow : Calls threeFiles (threeFiles.writes (growB.run threeFiles).2) :=
    .call growB .none (by decide +kernel)
  have hcreate : Calls threeFiles ((threeFiles.writes (growB.run threeFiles).2).writes
      (createD.run (threeFiles.writes (growB.run threeFiles).2)).2) :=
    .call createD hgrow (by decide +kernel)
  exact ⟨_, hcreate, by decide +kernel, calls_keep_accounts hcreate ⟨_, accounted_threeFiles⟩⟩

end CaribeOS.HfsScript
