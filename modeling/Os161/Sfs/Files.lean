import Os161.Sfs.Reach

/-! # Files are byte arrays

What files are for: an array of bytes with an end. `sfs_read`, `sfs_write` and `sfs_truncate` to
nothing, on any of the files of a volume, do what reads and writes of such arrays do.
-/

namespace Os161

open Prog Words

structure ByteFile where
  bytes : Mem
  size : Int

namespace ByteFile

def write (f : ByteFile) (off n : Nat) (src : Mem) : ByteFile where
  bytes p := if off ≤ p ∧ p < off + n then src (p - off) else f.bytes p
  size := max f.size (off + n)

def empty : ByteFile := ⟨fun _ => 0, 0⟩

def readLen (f : ByteFile) (off n : Nat) : Nat := (min (off + n : Int) f.size - off).toNat

end ByteFile

def Sfs.files (s : Sfs) (i : Nat) : ByteFile := ⟨s.fileByte i, s.fileSize i⟩

inductive FileOp where
  | read (i : Nat) (u : Uio)
  | write (i : Nat) (u : Uio)
  | erase (i : Nat)

def FileOp.apply : FileOp → (Nat → ByteFile) → Nat → ByteFile
  | .read _ _, m => m
  | .write i u, m => Function.update m i ((m i).write u.off u.uio_resid u.src)
  | .erase i, m => Function.update m i .empty

def applyAll (m : Nat → ByteFile) (ops : List FileOp) : Nat → ByteFile := ops.foldl (fun m op => op.apply m) m

theorem applyAll_append (m : Nat → ByteFile) (ops : List FileOp) (op : FileOp) :
    applyAll m (ops ++ [op]) = op.apply (applyAll m ops) := by
  simp [applyAll]

def Uio.Within (u : Uio) (rw : UioRw) : Prop := u.Fits ∧ u.uio_rw = rw ∧ u.off + u.uio_resid < 2 ^ 31

instance (u : Uio) (rw : UioRw) : Decidable (u.Within rw) := inferInstanceAs (Decidable (_ ∧ _ ∧ _))

inductive FileRun (I : Set Nat) (s : Sfs) : List FileOp → Sfs → Prop
  | nil : FileRun I s [] s
  | read {ops : List FileOp} {t t' : Sfs} {i : Nat} {v : Vnode} {u u' : Uio} {r : Except Errno Unit}
      (prior : FileRun I s ops t) (file : i ∈ I) (loaded : t.vnodes i = some v) (uio : u.Within .UIO_READ)
      (run : sfs_read i (t, u) = .ok (r, (t', u'))) : FileRun I s (ops ++ [.read i u]) t'
  | write {ops : List FileOp} {t t' : Sfs} {i : Nat} {v : Vnode} {u u' : Uio}
      (prior : FileRun I s ops t) (file : i ∈ I) (loaded : t.vnodes i = some v) (uio : u.Within .UIO_WRITE)
      (nonempty : 1 ≤ u.uio_resid) (run : sfs_write i (t, u) = .ok (.ok (), (t', u'))) :
      FileRun I s (ops ++ [.write i u]) t'
  | erase {ops : List FileOp} {t t' : Sfs} {i : Nat} {v : Vnode} {r : Except Errno Unit}
      (prior : FileRun I s ops t) (file : i ∈ I) (loaded : t.vnodes i = some v)
      (run : sfs_truncate i 0 t = .ok (r, t')) : FileRun I s (ops ++ [.erase i]) t'

section Steps

variable {I : Set Nat} {s t : Sfs} {i : Nat} {v : Vnode} {u : Uio}

theorem FileStep.files (hs : FileStep I i s t) {f : ByteFile} (hf : t.files i = f) :
    ∀ j ∈ I, t.files j = Function.update s.files i f j := by
  intro j hj
  by_cases hji : j = i
  · subst hji
    rw [Function.update_self, hf]
  · have hu := hs.others j hj hji
    have h0 := hs.good.pos j hj
    rw [Function.update_of_ne hji, Sfs.files, Sfs.files, hu.fileByte h0, hu.fileSize h0]

theorem WroteFile.files {off n : Nat} {src : Mem} (hw : WroteFile I i s t off n src) :
    ∀ j ∈ I, t.files j = Function.update s.files i ((s.files i).write off n src) j := by
  refine hw.toFileStep.files ?_
  have hbytes : t.fileByte i = fun p => if off ≤ p ∧ p < off + n then src (p - off) else s.fileByte i p :=
    funext hw.bytes
  rw [Sfs.files, Sfs.files, ByteFile.write, hbytes, hw.size]

theorem fileByte_of_no_blocks (h : ∀ k, k ≠ .inode → s.ref i k = 0) : s.fileByte i = fun _ => 0 := by
  funext p
  rw [Sfs.fileByte]
  cases hk : slotOf (p / 512) with
  | none => rfl
  | some k => exact if_pos (h k (slotOf_ne_inode hk).1)

theorem sfs_truncate_files (hg : s.Good I) (hi : i ∈ I) (hv : s.vnodes i = some v) :
    ∃ s', sfs_truncate i 0 s = .ok (.ok (), s') ∧ s'.Good I ∧
      ∀ j ∈ I, s'.files j = Function.update s.files i .empty j := by
  obtain ⟨s', hrun, htrunc⟩ := sfs_truncate_run hg hi hv 0
  refine ⟨s', hrun, htrunc.good, htrunc.files ?_⟩
  rw [Sfs.files, fileByte_of_no_blocks htrunc.empty, htrunc.size]
  rfl

theorem readLen_files (hu : u.Within .UIO_READ) :
    s.readLen i u = (s.files i).readLen u.off u.uio_resid := by
  obtain ⟨hfits, -, hlt⟩ := hu
  have hoff := hfits.off_eq
  rw [Sfs.readLen, ByteFile.readLen, Sfs.files, ← hoff, toI32_of_small (by omega) (by omega)]
  dsimp only
  split
  · omega
  · split <;> omega

end Steps

/-! ## Runs -/

section Runs

variable {I : Set Nat} {s t : Sfs} {ops : List FileOp}

theorem sfs_write_ok {i : Nat} {v : Vnode} {u u' : Uio} {t' : Sfs} (hg : t.Good I) (hi : i ∈ I)
    (hv : t.vnodes i = some v) (hu : u.Within .UIO_WRITE) (hrun : sfs_write i (t, u) = .ok (.ok (), (t', u'))) :
    WroteFile I i t t' u.off u.uio_resid u.src := by
  obtain ⟨r, t'', hrun', n, -, -, hw, -, hend, -⟩ :=
    (sfs_write_spec (X := fun _ => False) hu.1 hu.2.1 hg hi hv).exists
  obtain ⟨rfl, rfl⟩ := Prod.mk.inj (Except.ok.inj (hrun.symm.trans hrun'))
  obtain rfl : n = u.uio_resid := hend
  exact hw

theorem sfs_read_cases {i : Nat} {v : Vnode} {u : Uio} (hg : t.Good I) (hi : i ∈ I)
    (hv : t.vnodes i = some v) (hu : u.Within .UIO_READ) :
    ∃ r u', sfs_read i (t, u) = .ok (r, (t, u')) ∧ ReadPost i t u r (t, u') := by
  obtain ⟨r, ⟨t', u'⟩, hrun, hpost⟩ := (sfs_read_spec (X := fun _ => False) hu.1 hu.2.1 hg hi hv).exists
  obtain rfl : t' = t := hpost.1
  exact ⟨r, u', hrun, hpost⟩

theorem update_congr {m m' : Nat → ByteFile} (h : ∀ j ∈ I, m j = m' j) (i : Nat) (f : ByteFile) :
    ∀ j ∈ I, Function.update m i f j = Function.update m' i f j := by
  intro j hj
  by_cases hji : j = i
  · subst hji; rw [Function.update_self, Function.update_self]
  · rw [Function.update_of_ne hji, Function.update_of_ne hji, h j hj]

theorem FileRun.files (hg : s.Good I) (h : FileRun I s ops t) :
    t.Good I ∧ ∀ j ∈ I, t.files j = applyAll s.files ops j := by
  induction h with
  | nil => exact ⟨hg, fun j _ => rfl⟩
  | read prior file loaded uio run ih =>
    obtain ⟨hg₁, hfiles⟩ := ih
    obtain ⟨r, u', hrun, -⟩ := sfs_read_cases hg₁ file loaded uio
    have := (Prod.mk.inj (Except.ok.inj (run.symm.trans hrun))).2
    obtain ⟨rfl, -⟩ := Prod.mk.inj this
    refine ⟨hg₁, fun j hj => ?_⟩
    rw [applyAll_append]
    exact hfiles j hj
  | @write ops t t' i v u u' prior file loaded uio nonempty run ih =>
    obtain ⟨hg₁, hfiles⟩ := ih
    have hw := sfs_write_ok hg₁ file loaded uio run
    refine ⟨hw.good, fun j hj => ?_⟩
    rw [hw.files j hj, hfiles i file, applyAll_append]
    exact update_congr hfiles i _ j hj
  | @erase ops t t' i v r prior file loaded run ih =>
    obtain ⟨hg₁, hfiles⟩ := ih
    obtain ⟨s', hrun, hg', hs'⟩ := sfs_truncate_files hg₁ file loaded
    obtain ⟨-, rfl⟩ := Prod.mk.inj (Except.ok.inj (run.symm.trans hrun))
    refine ⟨hg', fun j hj => ?_⟩
    rw [hs' j hj, applyAll_append]
    exact update_congr hfiles i _ j hj

end Runs

structure Delivered (f : ByteFile) (u u' : Uio) (n : Nat) : Prop where
  offset : u'.uio_offset = u.uio_offset + n
  resid : u'.uio_resid = u.uio_resid - n
  mem : ∀ a, u'.iov_mem a =
    if u.iov_base ≤ a ∧ a < u.iov_base + n then f.bytes (u.off + (a - u.iov_base)) else u.iov_mem a

theorem delivered_moved {s : Sfs} {i n : Nat} {u : Uio} (hu : u.Within .UIO_READ) (hn : n ≤ u.uio_resid) :
    Delivered (s.files i) u (u.moved (s.from i u) 0 n) n := by
  obtain ⟨hfits, hrw, hlt⟩ := hu
  have hoff := hfits.off_eq
  refine ⟨moved_offset hfits.nonneg (by omega), moved_resid hn hfits.resid, fun a => ?_⟩
  simp only [Uio.moved, hrw, Mem.copy, Nat.zero_add]
  rfl

/-- After any run of calls on the files of a volume, a read delivers what the byte array holds up to its end, and the
position moves by as much. -/
theorem files_are_byte_arrays {I : Set Nat} {s t : Sfs} {ops : List FileOp} (hg : s.Good I)
    (hrun : FileRun I s ops t) :
    (∀ j ∈ I, t.files j = applyAll s.files ops j) ∧
    ∀ i ∈ I, ∀ v, t.vnodes i = some v → ∀ u : Uio, u.Within .UIO_READ → u.Safe →
      ∀ f n, f = applyAll s.files ops i → n = f.readLen u.off u.uio_resid →
        ∃ r u', sfs_read i (t, u) = .ok (r, (t, u')) ∧
          (r = .ok () ∧ Delivered f u u' n ∧ (n = 0 ∨ u.off + n ≤ 73216) ∨
            r = .error .EINVAL ∧ 73216 < u.off + n) := by
  obtain ⟨hg', hfiles⟩ := hrun.files hg
  refine ⟨hfiles, fun i hi v hv u hu hsafe f n hf hn => ?_⟩
  have hfi : t.files i = f := (hfiles i hi).trans hf.symm
  have hlen : t.readLen i u = n := by rw [readLen_files hu, hfi, hn]
  have hle : n ≤ u.uio_resid := by
    rw [hn, ByteFile.readLen]
    omega
  obtain ⟨r, u', hread, -, -, hpost⟩ := sfs_read_cases hg' hi hv hu
  refine ⟨r, u', hread, ?_⟩
  cases r with
  | ok =>
    obtain ⟨hu', hbound⟩ := hpost
    rw [hlen] at hu' hbound
    refine Or.inl ⟨rfl, ?_, hbound⟩
    dsimp only at hu'
    rw [hu', ← hfi]
    exact delivered_moved hu hle
  | error e =>
    obtain ⟨-, k, hk, hlt, hfail, -, -⟩ := hpost
    rw [hlen] at hk hlt
    rcases hfail with ⟨rfl, h143⟩ | ⟨-, hw⟩ | ⟨-, hns⟩
    · exact Or.inr ⟨rfl, by omega⟩
    · rw [hu.2.1] at hw; cases hw
    · exact absurd hsafe hns

theorem files_are_byte_arrays_one_byte : ∃ (s t : Sfs) (u' : Uio),
    FileRun s.liveSet s [.write 3 (mk_kuio (fun _ => 0x61) 1 2 .UIO_WRITE)] t ∧
      sfs_read 3 (t, mk_kuio (fun _ => 0) 4 0 .UIO_READ) = .ok (.ok (), (t, u')) ∧
      u'.iov_mem 2 = 0x61 ∧ u'.uio_offset = 3 ∧ u'.uio_resid = 1 := by
  obtain ⟨s, hs, hc⟩ := reach_runFresh [.getroot, .creat 1 (.ofBytes [0x61]) false]
    (fun s => (s.vnodes 3).isSome && s.fileSize 3 == 0 &&
      ends (sfs_write 3 (s, mk_kuio (fun _ => 0x61) 1 2 .UIO_WRITE)) fun r t =>
        decide (r = .ok ()) && (t.1.vnodes 3).isSome) (by decide +kernel)
  simp only [Bool.and_eq_true, beq_iff_eq] at hc
  obtain ⟨⟨h3, hsize⟩, hw⟩ := hc
  obtain ⟨v, hv⟩ := Option.isSome_iff_exists.mp h3
  obtain ⟨r, ⟨t, _⟩, hwrite, hw⟩ := ends_iff.mp hw
  rw [Bool.and_eq_true, decide_eq_true_eq] at hw
  obtain ⟨rfl, hw⟩ := hw
  obtain ⟨v', hv'⟩ := Option.isSome_iff_exists.mp hw
  have hrun : FileRun s.liveSet s [.write 3 (mk_kuio (fun _ => 0x61) 1 2 .UIO_WRITE)] t :=
    .write .nil (live_of_vnode hv) hv (by decide) (by decide) hwrite
  obtain ⟨r, u', hread, hres⟩ := (files_are_byte_arrays hs.inv.good hrun).2 3 (live_of_vnode hv) v' hv'
    (mk_kuio (fun _ => 0) 4 0 .UIO_READ) (by decide) (Or.inl rfl)
    ((s.files 3).write 2 1 fun _ => 0x61) 3 rfl (by simp [ByteFile.readLen, ByteFile.write, Sfs.files, hsize, mk_kuio, Uio.off])
  rcases hres with ⟨rfl, hd, -⟩ | ⟨-, hlt⟩
  · exact ⟨s, t, u', hrun, hread, hd.mem 2, hd.offset, hd.resid⟩
  · exact absurd hlt (by decide)

/-- A file can be given a size past the last byte that it can store. A read of one byte there is
before the end and fails. -/
theorem read_past_last_block_fails : ∃ (s : Sfs) (v : Vnode) (u : Uio),
    s.Good s.liveSet ∧ s.vnodes 3 = some v ∧ u.Within .UIO_READ ∧ u.Safe ∧
      (s.files 3).readLen u.off u.uio_resid = 1 ∧ ∃ u', sfs_read 3 (s, u) = .ok (.error .EINVAL, (s, u')) := by
  obtain ⟨s, hs, hc⟩ := reach_runFresh [.getroot, .creat 1 (.ofBytes [0x61]) false, .truncate 3 100000]
    (fun s => (s.vnodes 3).isSome && (s.files 3).readLen 73216 1 == 1 &&
      ends (sfs_read 3 (s, mk_kuio (fun _ => 0) 1 73216 .UIO_READ)) fun r _ => decide (r = .error .EINVAL))
    (by decide +kernel)
  simp only [Bool.and_eq_true, beq_iff_eq] at hc
  obtain ⟨⟨h3, hlen⟩, hfail⟩ := hc
  obtain ⟨v, hv⟩ := Option.isSome_iff_exists.mp h3
  have hg := hs.inv.good
  have hu : (mk_kuio (fun _ => 0) 1 73216 .UIO_READ).Within .UIO_READ := by decide
  obtain ⟨r, u', hread, -⟩ := sfs_read_cases hg (live_of_vnode hv) hv hu
  refine ⟨s, v, mk_kuio (fun _ => 0) 1 73216 .UIO_READ, hg, hv, hu, Or.inl rfl, hlen, u', ?_⟩
  obtain ⟨r', t, hrun, hr'⟩ := ends_iff.mp hfail
  obtain rfl := of_decide_eq_true hr'
  cases hread.symm.trans hrun
  exact hread

end Os161
