import CaribeOS.Hfs.ReadBack

/-!
# Updates of an image one after the other

`update-hfs-kernel.py` is run anew for every kernel that is built. For the booter an image is a store
of files then: after any number of replacements that succeed, a file that was replaced has the payload
that came last, and every other file is as it was in the first image (`replacements_read_back`).
-/

namespace CaribeOS.HfsScript

open FileScript

/-! ## Reading after reading -/

section Reading

variable {disk disk' disk'' : Disk} {vol vol' vol'' : HfsVolume} {path : List UInt8} {payload : Buf}

theorem ReadsSame.trans (h : ReadsSame disk disk' vol vol' path)
    (h' : ReadsSame disk' disk'' vol' vol'' path) : ReadsSame disk disk'' vol vol'' path := by
  intro secbuf dst cap m hapart
  obtain ⟨hresult, hbytes⟩ := h secbuf dst cap m hapart
  obtain ⟨hresult', hbytes'⟩ := h' secbuf dst cap m hapart
  refine ⟨hresult'.trans hresult, fun n hn k hk ↦ ?_⟩
  rw [hbytes' n (hresult.trans hn) k hk, hbytes n hn k hk]

theorem Delivers.of_readsSame (h : Delivers disk vol path payload)
    (h' : ReadsSame disk disk' vol vol' path) : Delivers disk' vol' path payload := by
  intro secbuf dst cap m hcap hapart
  obtain ⟨m', hread, hbytes⟩ := h secbuf dst cap m hcap hapart
  obtain ⟨hresult, hsame⟩ := h' secbuf dst cap m hapart
  rw [hread] at hresult hsame
  refine ⟨(hfsplusReadFile disk' vol' secbuf path dst cap m).2, Prod.ext hresult rfl, fun k hk ↦ ?_⟩
  have hsize : (UInt32.ofNat payload.size).toNat = payload.size :=
    UInt32.toNat_ofNat_of_lt' (hcap.trans_lt cap.toNat_lt)
  exact (hsame _ rfl k (hsize.symm ▸ hk)).trans (hbytes k hk)

end Reading

/-! ## One replacement -/

namespace RecordWritten

variable {img : Buf} {hfs : HFSPlusImage} {c c' : Contents} {pos : ℕ × ℕ} {b' : ℕ → UInt8}
  {size : ℕ} {extents : List (ℕ × ℕ)} (h : RecordWritten hfs c c' pos b' size extents) (free : ℕ)
include h

theorem keysPlain (hkeys : c.KeysPlain hfs) : c'.KeysPlain { hfs with freeBlocks := free } := by
  have hsame : ∀ p, c'.IsRecord { hfs with freeBlocks := free } p → c.IsRecord hfs p ∧
      c'.nameOf hfs p = c.nameOf hfs p ∧ c'.parentOf hfs p = c.parentOf hfs p := by
    rintro p ⟨hn, hkind, hindex⟩
    rw [h.kind_eq] at hkind
    rw [(h.sameKeys hn hkind).num] at hindex
    have hrecord := h.sameRecord hn hkind hindex
    refine ⟨⟨hn, hkind, hindex⟩, ?_, ?_⟩
    · rw [Contents.nameOf, h.offset_eq hn hkind hindex, hrecord.name, Contents.nameOf]
    · rw [Contents.parentOf, h.offset_eq hn hkind hindex, hrecord.parent, Contents.parentOf]
  constructor
  · intro p hp
    obtain ⟨hp, hname, -⟩ := hsame p hp
    exact (congrArg List.length hname).trans_le (hkeys.length p hp)
  · intro p hp u hu
    obtain ⟨hp, hname, -⟩ := hsame p hp
    exact hkeys.ascii p hp u (hname ▸ hu)
  · intro p q hp hq hparents hnames
    obtain ⟨hp, hname, hparent⟩ := hsame p hp
    obtain ⟨hq, hname', hparent'⟩ := hsame q hq
    exact hkeys.unique p q hp hq (hparent.symm.trans (hparents.trans hparent'))
      (hname.symm.trans (hnames.trans hname'))

/-- Every path leads to the record it led to, and a path that led to none leads to none. -/
theorem walk_eq (s : Sound img hfs) (names : List (List UInt8)) :
    c'.walk { hfs with freeBlocks := free } 2 names = c.walk hfs 2 names := by
  refine Option.ext fun p ↦ ⟨Contents.walk_mono ?_ ?_, Contents.walk_mono ?_ ?_⟩
  · exact fun q found hq ↦ (h.child_eq s q).symm.trans hq
  · exact fun parent name found hq ↦ (h.folderNumber_eq s ((h.child_eq s _).symm.trans hq)).symm
  · exact fun q found hq ↦ (h.child_eq s q).trans hq
  · exact fun parent name found hq ↦ h.folderNumber_eq s hq

end RecordWritten

/-! ## Runs -/

/-- Replacements that succeed lead from `img` to another image. The list has their paths and
payloads, the last one first. -/
inductive Replacements (img : Buf) : List (List Char × Buf) → Buf → Prop
  | none : Replacements img [] img
  | replace {log : List (List Char × Buf)} {img' payload : Buf} {path : List Char}
      {allowGrow : Bool} {alloc : ℕ} {ws : List Write} : Replacements img log img' →
      updateImage path payload allowGrow img' = (.ok alloc, ws) →
      Replacements img ((path, payload) :: log) (img'.writes ws)

/-- What a file should have: the payload that was put there last, if there was one. -/
def latest (hfs : HFSPlusImage) (img : Buf) (log : List (List Char × Buf)) (p : ℕ × ℕ) :
    Option Buf :=
  (log.find? fun e ↦
    (contents hfs img).walk hfs 2 (pathComponents (pathBytes e.1)) = some p).map Prod.snd

/-- The booter reads the payload, or without one what it read on the first disk. -/
def ReadsLatest (disk disk' : Disk) (vol vol' : HfsVolume) (path : List UInt8) : Option Buf → Prop
  | some payload => Delivers disk' vol' path payload
  | none => ReadsSame disk disk' vol vol' path

/-- An image whose files the booter reads and the scripts replace. -/
structure Usable (img : Buf) (hfs : HFSPlusImage) : Prop where
  sound : Sound img hfs
  sized : BooterSized hfs img.size
  large : 512 ≤ hfs.nodeSize
  keys : (contents hfs img).KeysPlain hfs

/-- The paths are ASCII, and the payloads are not empty. -/
def Proper (log : List (List Char × Buf)) : Prop :=
  ∀ e ∈ log, (∀ ch ∈ e.1, ch.toNat < 128) ∧ 0 < e.2.size

theorem Usable.view {img : Buf} {hfs : HFSPlusImage} {disk : Disk} (u : Usable img hfs)
    (hdisk : Holds disk img) : ∃ vol, View disk vol img hfs ∧ Mounts disk vol :=
  u.sound.view u.sized u.large hdisk

/-- The image `img'` is the store that the log makes of `img`. -/
structure Tracks (img : Buf) (hfs : HFSPlusImage) (log : List (List Char × Buf)) (img' : Buf)
    (hfs' : HFSPlusImage) : Prop where
  usable : Usable img' hfs'
  walk : ∀ names, (contents hfs' img').walk hfs' 2 names = (contents hfs img).walk hfs 2 names
  reads : ∀ {disk disk' vol vol' other p}, View disk vol img hfs → View disk' vol' img' hfs' →
    (contents hfs img).walk hfs 2 (pathComponents other) = some p →
      ReadsLatest disk disk' vol vol' other (latest hfs img log p)

section Runs

variable {img img' payload : Buf} {hfs hfs' : HFSPlusImage} {log : List (List Char × Buf)}
  {path : List Char} {allowGrow : Bool} {alloc : ℕ} {ws : List Write}

theorem latest_cons (p : ℕ × ℕ) : latest hfs img ((path, payload) :: log) p
    = if (contents hfs img).walk hfs 2 (pathComponents (pathBytes path)) = some p then some payload
      else latest hfs img log p := by
  rw [latest, List.find?_cons]
  split_ifs with hpath
  · rw [decide_eq_true hpath]
    rfl
  · rw [decide_eq_false hpath]
    rfl

theorem Tracks.replaced (h : Tracks img hfs log img' hfs') (hascii : ∀ ch ∈ path, ch.toNat < 128)
    (hpayload : 0 < payload.size)
    (hrun : updateImage path payload allowGrow img' = (.ok alloc, ws)) :
    ∃ hfs'', Tracks img hfs ((path, payload) :: log) (img'.writes ws) hfs'' := by
  have u := h.usable
  obtain ⟨pos, b', extents, hpath, hwritten, hstored⟩ := u.sound.replaced hrun
  obtain ⟨free, s'⟩ := hstored.sound
  have hwalk : (contents hfs img).walk hfs 2 (pathComponents (pathBytes path)) = some pos := by
    rw [← h.walk, pathComponents_pathBytes hascii]
    exact u.sound.walk_of_pathLeads u.keys hpath
  refine ⟨{ hfs' with freeBlocks := free }, ⟨s', hstored.booterSized u.sized free, u.large,
    hwritten.keysPlain free u.keys⟩,
    fun names ↦ (hwritten.walk_eq free u.sound names).trans (h.walk names),
    fun {disk disk' vol vol' other p} v v' hother ↦ ?_⟩
  have hbefore := (h.walk _).trans hother
  have hafter := (hwritten.walk_eq free u.sound _).trans hbefore
  rw [latest_cons, hwalk]
  split_ifs with heq
  · obtain rfl := Option.some.inj heq
    exact v'.delivers hafter hpayload hwritten.dataFork_size hstored.covered hstored.data
  · -- the file is read as from the image before, and there it was as the log says
    obtain ⟨vol₁, v₁, -⟩ := u.view (holds_diskOf img')
    have hfile := (v₁.isFile_of_walk hbefore).2
    have hne : p ≠ pos := fun hp ↦ heq (by rw [hp])
    have hsame := v₁.readsSame v' hbefore hafter (hwritten.dataFork_of_ne hfile hne) rfl
      (hstored.others p hfile hne)
    have hreads := h.reads v v₁ hother
    cases hlatest : latest hfs img log p with
    | none =>
      rw [hlatest] at hreads
      exact hreads.trans hsame
    | some old =>
      rw [hlatest] at hreads
      exact hreads.of_readsSame hsame

theorem Replacements.tracks (u : Usable img hfs) (hlog : Proper log)
    (hrun : Replacements img log img') : ∃ hfs', Tracks img hfs log img' hfs' := by
  induction hrun with
  | none =>
    exact ⟨hfs, u, fun _ ↦ rfl, fun v v' hother ↦ v.readsSame v' hother hother rfl rfl rfl⟩
  | replace _ hcall ih =>
    obtain ⟨⟨hascii, hpayload⟩, hrest⟩ := List.forall_mem_cons.mp hlog
    obtain ⟨hfs', h⟩ := ih hrest
    exact h.replaced hascii hpayload hcall

/-- **The image is a store of files.** After any number of replacements that succeed, the booter reads
from a file the payload that was put there last, and from every other file what it read before. -/
theorem replacements_read_back {disk disk' : Disk} (u : Usable img hfs) (hlog : Proper log)
    (hrun : Replacements img log img') (hdisk : Holds disk img) (hdisk' : Holds disk' img') :
    ∃ vol vol', Mounts disk vol ∧ Mounts disk' vol' ∧
      ∀ other p, (contents hfs img).walk hfs 2 (pathComponents other) = some p →
        ReadsLatest disk disk' vol vol' other (latest hfs img log p) := by
  obtain ⟨hfs', h⟩ := hrun.tracks u hlog
  obtain ⟨vol, v, hmount⟩ := u.view hdisk
  obtain ⟨vol', v', hmount'⟩ := h.usable.view hdisk'
  exact ⟨vol, vol', hmount, hmount', fun other p hother ↦ h.reads v v' hother⟩

end Runs

theorem usable_threeFiles : Usable threeFiles threeFilesVolume :=
  ⟨sound_threeFiles, booterSized_threeFiles, by decide, keysPlain_threeFiles⟩

/-- The file `b` is replaced twice: it grows, and then it shrinks. -/
theorem replacements_read_back_threeFiles :
    ∃ img', Replacements threeFiles [(['/', 'b'], ⟨1, fun _ ↦ 67⟩),
        (['/', 'b'], ⟨5000, fun _ ↦ 66⟩)] img' ∧
      ∃ vol', Mounts (diskOf img') vol' ∧
        Delivers (diskOf img') vol' (pathBytes ['/', 'b']) ⟨1, fun _ ↦ 67⟩ := by
  obtain ⟨alloc, hgrow⟩ := exists_of_isOk
    (r := updateImage ['/', 'b'] ⟨5000, fun _ ↦ 66⟩ true threeFiles) (by decide +kernel)
  obtain ⟨alloc', hshrink⟩ := exists_of_isOk
    (r := updateImage ['/', 'b'] ⟨1, fun _ ↦ 67⟩ true (threeFiles.writes
      (updateImage ['/', 'b'] ⟨5000, fun _ ↦ 66⟩ true threeFiles).2)) (by decide +kernel)
  have hrun := (Replacements.none.replace hgrow).replace hshrink
  obtain ⟨vol, vol', -, hmount', hreads⟩ := replacements_read_back usable_threeFiles
    (by simp [Proper]) hrun (holds_diskOf _) (holds_diskOf _)
  have hwalk : (contents threeFilesVolume threeFiles).walk threeFilesVolume 2
      (pathComponents (pathBytes ['/', 'b'])) = some (1, 1) := by decide +kernel
  have hb := hreads _ _ hwalk
  rw [latest_cons, if_pos hwalk] at hb
  exact ⟨_, hrun, vol', hmount', hb⟩

end CaribeOS.HfsScript
