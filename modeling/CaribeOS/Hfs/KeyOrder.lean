import CaribeOS.Hfs.RecordAdded

/-!
# The order of the catalog keys

A search in an HFS+ catalog relies on the order of the keys: read along the chain of the leaves, the
records are increasing by the ID of the parent folder and then by name (`KeysSorted`). The order of
names is a parameter here; HFS+ has one that ignores case, HFSX has others.

`create_root_file` puts the new record behind the last one of the first leaf. So the order is kept
exactly if the new key belongs there (`create_keeps_order_iff`).
-/

namespace CaribeOS.HfsScript

open FileScript Extents

/-! ## Chains of leaves -/

section Chain

variable (c : Contents)

/-- `fLink`: the next node. -/
def Contents.link (n : ℕ) : ℕ := (CaribeOS.be32 (c.node n) 0).toNat

/-- The nodes from `n` on, along the links, up to one without a link. -/
inductive Contents.Chain : ℕ → List ℕ → Prop
  | last {n : ℕ} : c.link n = 0 → Chain n [n]
  | next {n : ℕ} {ns : List ℕ} : c.link n ≠ 0 → Chain (c.link n) ns → Chain n (n :: ns)

/-- The key of a record: the folder and the name. -/
def Contents.key (hfs : HFSPlusImage) (pos : ℕ × ℕ) : ℕ × List UInt16 :=
  ((recordParent (c.node pos.1) (c.offset hfs pos)).toNat,
    recordName (c.node pos.1) (c.offset hfs pos))

/-- The keys of the records of a leaf. -/
def Contents.leafKeys (hfs : HFSPlusImage) (n : ℕ) : List (ℕ × List UInt16) :=
  (List.range (numRecords (c.node n))).map fun i ↦ c.key hfs (n, i)

/-- The keys of the records of some leaves. -/
def Contents.keys (hfs : HFSPlusImage) (ns : List ℕ) : List (ℕ × List UInt16) :=
  ns.flatMap (c.leafKeys hfs)

end Chain

/-- **The order of the catalog**: the keys are increasing along the chain that begins with the first
leaf. -/
def KeysSorted (lt : List UInt16 → List UInt16 → Prop) (img : Buf) : Prop :=
  ∃ hfs ns, mount img = .ok hfs ∧ (contents hfs img).Chain hfs.firstLeaf ns ∧
    ((contents hfs img).keys hfs ns).Pairwise (Prod.Lex (· < ·) lt)

namespace Contents.Chain

variable {c c' : Contents} {n m : ℕ} {ns ms : List ℕ}

theorem unique (h : c.Chain n ns) (h' : c.Chain n ms) : ns = ms := by
  induction h generalizing ms with
  | last hzero =>
    cases h' with
    | last _ => rfl
    | next hne _ => exact absurd hzero hne
  | next hne _ ih =>
    cases h' with
    | last hzero => exact absurd hzero hne
    | next _ htail => rw [ih htail]

theorem eq_cons (h : c.Chain n ns) : ns = n :: ns.tail := by
  cases h with
  | last _ => rfl
  | next _ _ => rfl

theorem suffix (h : c.Chain n ns) (hm : m ∈ ns) : ∃ ms, c.Chain m ms ∧ ms <:+ ns := by
  induction h with
  | last hzero =>
    rw [List.mem_singleton] at hm
    subst hm
    exact ⟨_, .last hzero, List.suffix_refl _⟩
  | next hne htail ih =>
    rcases List.mem_cons.mp hm with rfl | hm
    · exact ⟨_, .next hne htail, List.suffix_refl _⟩
    · obtain ⟨ms, hchain, hsuffix⟩ := ih hm
      exact ⟨ms, hchain, hsuffix.trans (List.suffix_cons _ _)⟩

/-- A node is on the chain once: else the chain would not end. -/
theorem notMem_tail (h : c.Chain n ns) : n ∉ ns.tail := by
  intro hmem
  cases h with
  | last _ => exact absurd hmem List.not_mem_nil
  | @next _ ns hne htail =>
    obtain ⟨ms, hchain, hsuffix⟩ := htail.suffix hmem
    rw [← unique (.next hne htail) hchain] at hsuffix
    have hlen := hsuffix.length_le
    rw [List.length_cons] at hlen
    omega

theorem congr (h : c.Chain n ns) (hlink : ∀ m, c'.link m = c.link m) : c'.Chain n ns := by
  induction h with
  | last hzero => exact .last (by rw [hlink, hzero])
  | next hne _ ih => exact .next (by rwa [hlink]) (by rwa [hlink])

end Contents.Chain

/-! ## A record more -/

theorem RecordAdded.link_eq {hfs : HFSPlusImage} {c c' : Contents} {b' : ℕ → UInt8}
    {name : List Char} {size : ℕ} {extent : ℕ × ℕ}
    (h : RecordAdded hfs c c' b' name size extent) (n : ℕ) : c'.link n = c.link n := by
  rw [Contents.link, Contents.link]
  by_cases hn : n = hfs.firstLeaf
  · rw [hn, h.node_first, be32_congr fun k _ hlt ↦ h.inserted.descriptor k (by omega)]
  · rw [h.node_of_ne hn]

section Keys

variable {hfs : HFSPlusImage} {c c' : Contents} {b' : ℕ → UInt8} {name : List Char} {size : ℕ}
  {extent : ℕ × ℕ} (h : RecordAdded hfs c c' b' name size extent)
include h

theorem RecordAdded.leafKeys_first :
    c'.leafKeys hfs hfs.firstLeaf = c.leafKeys hfs hfs.firstLeaf ++ [(2, nameUnits name)] := by
  have hold : ∀ i < numRecords (c.node hfs.firstLeaf),
      c'.key hfs (hfs.firstLeaf, i) = c.key hfs (hfs.firstLeaf, i) := by
    intro i hi
    have hsame := h.sameRecord (p := (hfs.firstLeaf, i)) hi
    rw [Contents.key, h.offset_eq (p := (hfs.firstLeaf, i)) hi, hsame.parent, hsame.name,
      Contents.key]
  have hnew : c'.key hfs (hfs.firstLeaf, numRecords (c.node hfs.firstLeaf))
      = (2, nameUnits name) := by
    have hrecord := h.record_new
    rw [Contents.newPos] at hrecord
    rw [Contents.key, hrecord.parent, hrecord.units]
    rfl
  rw [Contents.leafKeys, h.numRecords_eq, if_pos rfl, List.range_succ, List.map_append,
    List.map_singleton, hnew, Contents.leafKeys,
    List.map_congr_left fun i hi ↦ hold i (List.mem_range.mp hi)]

theorem RecordAdded.leafKeys_of_ne {n : ℕ} (hn : n ≠ hfs.firstLeaf) :
    c'.leafKeys hfs n = c.leafKeys hfs n := by
  rw [Contents.leafKeys, Contents.leafKeys, h.node_of_ne hn]
  refine List.map_congr_left fun i _ ↦ ?_
  rw [Contents.key, Contents.key, Contents.offset, Contents.offset, h.node_of_ne hn]

/-- **The keys along the chain**, with the new one at the end of the first leaf. -/
theorem RecordAdded.keys_eq {ns : List ℕ} (hchain : c.Chain hfs.firstLeaf ns) :
    c'.keys hfs ns = c.leafKeys hfs hfs.firstLeaf ++ (2, nameUnits name) :: c.keys hfs ns.tail := by
  have htail : c'.keys hfs ns.tail = c.keys hfs ns.tail :=
    List.flatMap_congr fun n hn ↦ h.leafKeys_of_ne fun heq ↦ hchain.notMem_tail (heq ▸ hn)
  rw [hchain.eq_cons]
  change c'.leafKeys hfs hfs.firstLeaf ++ c'.keys hfs ns.tail = _
  rw [h.leafKeys_first, htail, List.append_assoc, List.singleton_append, List.tail_cons]

end Keys

theorem pairwise_insert_iff {α : Type*} {r : α → α → Prop} {l₁ l₂ : List α} {a : α}
    (h : (l₁ ++ l₂).Pairwise r) :
    (l₁ ++ a :: l₂).Pairwise r ↔ (∀ x ∈ l₁, r x a) ∧ ∀ x ∈ l₂, r a x := by
  rw [List.pairwise_append] at h
  obtain ⟨h₁, h₂, hcross⟩ := h
  rw [List.pairwise_append, List.pairwise_cons]
  constructor
  · rintro ⟨-, ⟨hafter, -⟩, hbefore⟩
    exact ⟨fun x hx ↦ hbefore x hx a List.mem_cons_self, hafter⟩
  · rintro ⟨hbefore, hafter⟩
    refine ⟨h₁, ⟨hafter, h₂⟩, fun x hx y hy ↦ ?_⟩
    rcases List.mem_cons.mp hy with rfl | hy
    · exact hbefore x hx
    · exact hcross x hx y hy

/-- The new key is above the keys of the first leaf and below those of the other leaves. -/
def KeyFits (lt : List UInt16 → List UInt16 → Prop) (hfs : HFSPlusImage) (c : Contents)
    (name : List Char) : Prop :=
  (∀ k ∈ c.leafKeys hfs hfs.firstLeaf, Prod.Lex (· < ·) lt k (2, nameUnits name)) ∧
    ∀ ns, c.Chain hfs.firstLeaf ns → ∀ k ∈ c.keys hfs ns.tail,
      Prod.Lex (· < ·) lt (2, nameUnits name) k

theorem Sound.keysSorted_created_iff {img payload : Buf} {hfs : HFSPlusImage} {path : List Char}
    {ws : List Write} {lt : List UInt16 → List UInt16 → Prop} (s : Sound img hfs)
    (hsorted : KeysSorted lt img) (hrun : createRootFile path payload img = (.ok (), ws)) :
    KeysSorted lt (img.writes ws) ↔ KeyFits lt hfs (contents hfs img) (stripSlashes path) := by
  obtain ⟨-, start, bm, vh, bws, dws, vh', b', nws, hdata, hcounted, -, -, hsize, hcontents, h⟩ :=
    s.createRootFile_ok hrun
  obtain ⟨hfs₀, ns, hmount, hchain, hpairs⟩ := hsorted
  obtain rfl : hfs₀ = hfs := Except.ok.inj (hmount.symm.trans s.mounted)
  have hkept : HeaderKept (contents hfs₀ img).header (contents hfs₀ (img.writes ws)).header := by
    intro k hk hcount hfree hid
    rw [hcontents]
    dsimp only
    rw [overlay_of_lt hk, hcounted.kept k hk hcount hid, overlay_of_lt hk,
      hdata.header.kept k hk (by omega)]
  have hmount' := s.mount_of_contents hsize hkept (by rw [hcontents])
  have hchain' := hchain.congr h.link_eq
  -- the keys do not depend on the number of free blocks
  have hkeys : KeysSorted lt (img.writes ws) ↔
      ((contents hfs₀ (img.writes ws)).keys hfs₀ ns).Pairwise (Prod.Lex (· < ·) lt) := by
    constructor
    · rintro ⟨hfs', ns', hmounted, hchain'', hpairs'⟩
      obtain rfl := Except.ok.inj (hmount'.symm.trans hmounted)
      obtain rfl : ns' = ns := Contents.Chain.unique hchain'' hchain'
      exact hpairs'
    · exact fun hpairs' ↦ ⟨_, ns, hmount', hchain', hpairs'⟩
  have hsplit : (contents hfs₀ img).keys hfs₀ ns
      = (contents hfs₀ img).leafKeys hfs₀ hfs₀.firstLeaf ++ (contents hfs₀ img).keys hfs₀ ns.tail := by
    conv_lhs => rw [hchain.eq_cons]
    rfl
  rw [hsplit] at hpairs
  rw [hkeys, h.keys_eq hchain, pairwise_insert_iff hpairs, KeyFits]
  refine and_congr_right fun _ ↦ ⟨fun hall ns' hns' ↦ ?_, fun hall ↦ hall ns hchain⟩
  rwa [hns'.unique hchain]

/-- **When the order of the catalog is kept**: exactly if the key of the new file is above all keys of
the first leaf and below all keys of the other leaves. -/
theorem create_keeps_order_iff {img payload : Buf} {hfs : HFSPlusImage} {path : List Char}
    {ws : List Write} {lt : List UInt16 → List UInt16 → Prop} (hsound : Sound img hfs)
    (hsorted : KeysSorted lt img) (hrun : createRootFile path payload img = (.ok (), ws)) :
    KeysSorted lt (img.writes ws) ↔ KeyFits lt hfs (contents hfs img) (stripSlashes path) :=
  hsound.keysSorted_created_iff hsorted hrun

theorem leafKeys_threeFiles :
    (contents threeFilesVolume threeFiles).leafKeys threeFilesVolume threeFilesVolume.firstLeaf
      = [(2, [97]), (2, [98]), (2, [99])] := by
  decide

theorem keysSorted_threeFiles : KeysSorted (· < ·) threeFiles := by
  refine ⟨threeFilesVolume, [1], mount_threeFiles, .last (by decide), ?_⟩
  change ((contents threeFilesVolume threeFiles).leafKeys threeFilesVolume
    threeFilesVolume.firstLeaf ++ []).Pairwise _
  rw [leafKeys_threeFiles]
  have hless : ([97] : List UInt16) < [98] ∧ ([97] : List UInt16) < [99] ∧
      ([98] : List UInt16) < [99] := by decide
  simp [Prod.lex_def, hless]

theorem createRootFile_of_ok {path : List Char} {payload img : Buf}
    (h : (createRootFile path payload img).1 = .ok ()) :
    createRootFile path payload img = (.ok (), (createRootFile path payload img).2) := by
  rw [← h]

/-- The file `0` comes to stand behind `c`. -/
theorem create_breaks_order : KeysSorted (· < ·) threeFiles ∧
    (createRootFile ['/', '0'] ⟨1, fun _ ↦ 68⟩ threeFiles).1 = .ok () ∧
    ¬KeysSorted (· < ·)
      (threeFiles.writes (createRootFile ['/', '0'] ⟨1, fun _ ↦ 68⟩ threeFiles).2) := by
  have hok : (createRootFile ['/', '0'] ⟨1, fun _ ↦ 68⟩ threeFiles).1 = .ok () := by decide +kernel
  refine ⟨keysSorted_threeFiles, hok, fun hafter ↦ ?_⟩
  obtain ⟨hfits, -⟩ := (sound_threeFiles.keysSorted_created_iff keysSorted_threeFiles
    (createRootFile_of_ok hok)).mp hafter
  rw [leafKeys_threeFiles, show nameUnits (stripSlashes ['/', '0']) = [48] by decide] at hfits
  have hlast := hfits (2, [99]) (by decide)
  have hnot : ¬([99] : List UInt16) < [48] := by decide
  simp [Prod.lex_def, hnot] at hlast

/-- The file `d` belongs behind `c`. -/
theorem create_keeps_order_threeFiles :
    (createRootFile ['/', 'd'] ⟨1, fun _ ↦ 68⟩ threeFiles).1 = .ok () ∧ KeysSorted (· < ·)
      (threeFiles.writes (createRootFile ['/', 'd'] ⟨1, fun _ ↦ 68⟩ threeFiles).2) := by
  have hok : (createRootFile ['/', 'd'] ⟨1, fun _ ↦ 68⟩ threeFiles).1 = .ok () := by decide +kernel
  refine ⟨hok, (create_keeps_order_iff sound_threeFiles keysSorted_threeFiles
    (createRootFile_of_ok hok)).mpr ⟨?_, fun ns hns ↦ ?_⟩⟩
  · rw [leafKeys_threeFiles, show nameUnits (stripSlashes ['/', 'd']) = [100] by decide]
    have hless : ([97] : List UInt16) < [100] ∧ ([98] : List UInt16) < [100] ∧
        ([99] : List UInt16) < [100] := by decide
    simp [Prod.lex_def, hless]
  · have hchain : (contents threeFilesVolume threeFiles).Chain threeFilesVolume.firstLeaf [1] :=
      .last (by decide)
    rw [hns.unique hchain]
    exact List.forall_mem_nil _

end CaribeOS.HfsScript
