import Os161.Vm.Image

/-! # Loading a whole program

The two passes over the program headers, and what they end in for every file.
-/

namespace Os161.Elf

open Prog Words

/-! ## The headers in the file -/

def File.ehdr (file : File) : Ehdr := Ehdr.decode (file.from 0)

def File.phdr (file : File) (i : Nat) : Phdr :=
  Phdr.decode (file.from ((file.ehdr.e_phoff + i * file.ehdr.e_phentsize : Nat) : Int))

def File.segmentsFrom (file : File) (i n : Nat) : List Phdr :=
  ((List.range' i n).map file.phdr).filter (·.p_type = PT_LOAD)

def File.segments (file : File) : List Phdr := file.segmentsFrom 0 file.ehdr.e_phnum

def defineAll (segs : List Phdr) : Except Errno Addrspace :=
  segs.foldlM (fun as ph => as_define_region ph.p_vaddr ph.p_memsz as) as_create

def File.Loadable (file : File) : Prop :=
  file.ehdr.Supported → ∀ as, defineAll file.segments = .ok as →
    (∀ ph ∈ file.segments, ph.p_memsz = 0) ∨
    as.as_vbase1 ≠ 0 ∧ as.as_npages1 ≠ 0 ∧ as.as_vbase2 ≠ 0 ∧ as.as_npages2 ≠ 0 ∧
    Moderate as.as_npages1 ∧ Moderate as.as_npages2

section Headers

variable {file : File} {m m' : Mem}

theorem Ehdr.decode_congr (h : ∀ i < EHDRSIZE, m i = m' i) : Ehdr.decode m = Ehdr.decode m' := by
  simp only [EHDRSIZE] at h
  have hw : ∀ k < 13, wordAt m k = wordAt m' k := fun k hk => wordAt_congr fun i _ hi => h i (by omega)
  simp only [Ehdr.decode, hw 4 (by omega), hw 5 (by omega), hw 6 (by omega), hw 7 (by omega), hw 10 (by omega),
    hw 11 (by omega), Ehdr.mk.injEq, and_true]
  funext i
  exact h i (by omega)

theorem Phdr.decode_congr (h : ∀ i < PHDRSIZE, m i = m' i) : Phdr.decode m = Phdr.decode m' := by
  simp only [PHDRSIZE] at h
  have hw : ∀ k < 8, wordAt m k = wordAt m' k := fun k hk => wordAt_congr fun i _ hi => h i (by omega)
  simp only [Phdr.decode, hw 0 (by omega), hw 1 (by omega), hw 2 (by omega), hw 4 (by omega), hw 5 (by omega),
    hw 6 (by omega)]

theorem segmentsFrom_succ (file : File) (i n : Nat) :
    file.segmentsFrom i (n + 1) =
      (if (file.phdr i).p_type = PT_LOAD then [file.phdr i] else []) ++ file.segmentsFrom (i + 1) n := by
  unfold File.segmentsFrom
  rw [List.range'_succ, List.map_cons, List.filter_cons]
  by_cases h : (file.phdr i).p_type = PT_LOAD <;> simp [h]

theorem ehdr_phoff_lt (file : File) : file.ehdr.e_phoff < 2 ^ 32 := wordAt_lt _ _

theorem ehdr_phentsize_lt (file : File) : file.ehdr.e_phentsize < 2 ^ 16 := Nat.mod_lt _ (by omega)

theorem load_elf_loop_rule {X : VmPanic → Prop} {I : List Phdr → Vm → Prop} {body : Phdr → VmM Unit}
    (hpieces : ∀ segs vm ps, I segs vm → I segs { vm with pieces := ps })
    {i n : Nat} (done : List Phdr) {vm : Vm}
    (hbody : ∀ segs ph vm, ph ∈ file.segmentsFrom i n → I segs vm →
      Holds X (body ph) vm fun r t => r = .ok () → I (segs ++ [ph]) t)
    (hoff : file.ehdr.e_phoff + i * file.ehdr.e_phentsize < 2 ^ 32) (hi : I done vm) :
    Holds X (load_elf_loop file file.ehdr body i n) vm fun r t => r = .ok () → I (done ++ file.segmentsFrom i n) t := by
  induction n generalizing i done vm with
  | zero => exact holds_pure fun _ => by simpa [File.segmentsFrom] using hi
  | succ n ih =>
    rw [load_elf_loop]
    have hrange := toI32_range ((file.ehdr.e_phoff + i * file.ehdr.e_phentsize : Nat) : Int)
    refine ((read_header_spec file PHDRSIZE _ (by decide) hrange.1 hrange.2 vm).mono (fun _ _ => id) nofun).bind
      ?_ fun _ _ _ => nofun
    rintro m _ ⟨⟨ps, rfl⟩, hm⟩
    obtain ⟨hin, hm⟩ := hm m rfl
    -- an offset that wraps around is negative, and there is nothing to read
    obtain ⟨h0, hlen⟩ := hin (by decide)
    have hself := toI32_eq_self (by exact_mod_cast hoff) (Int.natCast_nonneg _) h0
    rw [hself] at hm
    have hlt : file.ehdr.e_phoff + i * file.ehdr.e_phentsize < 2 ^ 31 := by
      have := hrange.2
      rw [hself] at this
      exact_mod_cast this
    have hnext : file.ehdr.e_phoff + (i + 1) * file.ehdr.e_phentsize < 2 ^ 32 := by
      have := ehdr_phentsize_lt file
      rw [Nat.add_mul]
      omega
    rw [Phdr.decode_congr hm, show Phdr.decode _ = file.phdr i from rfl]
    have hi := hpieces done vm ps hi
    have hrest : ∀ segs ph vm, ph ∈ file.segmentsFrom (i + 1) n → I segs vm →
        Holds X (body ph) vm fun r t => r = .ok () → I (segs ++ [ph]) t := fun segs ph vm hph =>
      hbody segs ph vm (by rw [segmentsFrom_succ]; exact List.mem_append_right _ hph)
    dsimp only
    split
    · rename_i hskip
      rw [segmentsFrom_succ, if_neg (by rintro h; rw [h] at hskip; revert hskip; decide), List.nil_append]
      exact ih done hrest hnext hi
    split
    · rename_i hload
      rw [segmentsFrom_succ, if_pos hload]
      refine (hbody done (file.phdr i) _ (by rw [segmentsFrom_succ, if_pos hload]; simp) hi).bind ?_ fun _ _ _ => nofun
      intro _ t ht
      rw [← List.append_assoc]
      exact ih _ hrest hnext (ht rfl)
    · exact holds_throw nofun

end Headers

/-! ## The first pass -/

section Define

structure Defined (segs : List Phdr) (as : Addrspace) : Prop where
  pbase1 : as.as_pbase1 = 0
  pbase2 : as.as_pbase2 = 0
  stackpbase : as.as_stackpbase = 0
  vbase1 : as.as_vbase1 % PAGE_SIZE = 0
  vbase2 : as.as_vbase2 % PAGE_SIZE = 0
  npages1 : as.as_npages1 = 0 ∨ ∃ ph ∈ segs, as.as_npages1 = region_npages ph.p_vaddr ph.p_memsz
  npages2 : as.as_npages2 = 0 ∨ ∃ ph ∈ segs, as.as_npages2 = region_npages ph.p_vaddr ph.p_memsz

variable {segs : List Phdr} {as as' : Addrspace} {ph : Phdr}

theorem Defined.define (h : Defined segs as) (hd : as_define_region ph.p_vaddr ph.p_memsz as = .ok as') :
    Defined (segs ++ [ph]) as' := by
  have hmono : ∀ {n}, (n = 0 ∨ ∃ ph ∈ segs, n = region_npages ph.p_vaddr ph.p_memsz) →
      n = 0 ∨ ∃ ph' ∈ segs ++ [ph], n = region_npages ph'.p_vaddr ph'.p_memsz :=
    fun hn => hn.imp_right fun ⟨ph, hph, hn⟩ => ⟨ph, List.mem_append_left _ hph, hn⟩
  have hlast : ∃ ph' ∈ segs ++ [ph], region_npages ph.p_vaddr ph.p_memsz = region_npages ph'.p_vaddr ph'.p_memsz :=
    ⟨ph, by simp, rfl⟩
  simp only [as_define_region] at hd
  split at hd
  · cases hd
    exact ⟨h.pbase1, h.pbase2, h.stackpbase, pageFrame_mod _, h.vbase2, .inr hlast, hmono h.npages2⟩
  split at hd
  · cases hd
    exact ⟨h.pbase1, h.pbase2, h.stackpbase, h.vbase1, pageFrame_mod _, hmono h.npages1, .inr hlast⟩
  · cases hd

theorem defineAll_append (segs : List Phdr) (ph : Phdr) :
    defineAll (segs ++ [ph]) = (defineAll segs).bind (as_define_region ph.p_vaddr ph.p_memsz) := by
  unfold defineAll
  simp only [List.foldlM_append, List.foldlM_cons, List.foldlM_nil, bind_pure]
  rfl

theorem define_segment_spec {vm : Vm} (hspace : vm.t_vmspace = some as) (hall : defineAll segs = .ok as)
    (hdef : Defined segs as) :
    Holds (fun _ => False) (define_segment ph) vm fun r t => r = .ok () →
      ∃ as', t = { vm with t_vmspace := some as' } ∧ defineAll (segs ++ [ph]) = .ok as' ∧ Defined (segs ++ [ph]) as' := by
  unfold define_segment
  refine holds_bind_run (get_run _) ?_
  rw [hspace]
  dsimp only
  cases hd : as_define_region ph.p_vaddr ph.p_memsz as with
  | error e => exact holds_of_run (bind_error (finish_run _ _)) nofun
  | ok as' =>
    refine holds_bind_run (finish_run _ _) (holds_of_run (set_run _ _) fun _ => ⟨as', rfl, ?_, hdef.define hd⟩)
    rw [defineAll_append, hall]
    exact hd

theorem Phdr.Placed.moderate {file : File} (h : ph.Placed file) : Moderate (region_npages ph.p_vaddr ph.p_memsz) := by
  obtain ⟨h, -⟩ := h
  simp only [Moderate, region_npages, pageFrame, PAGE_SIZE, USERTOP, MIPS_KSEG0] at *
  omega

theorem Defined.moderate {file : File} (h : Defined segs as) (hp : ∀ ph ∈ segs, ph.Placed file) :
    Moderate as.as_npages1 ∧ Moderate as.as_npages2 := by
  constructor
  · rcases h.npages1 with hn | ⟨ph, hph, hn⟩
    · rw [hn]; decide
    · rw [hn]; exact (hp ph hph).moderate
  · rcases h.npages2 with hn | ⟨ph, hph, hn⟩
    · rw [hn]; decide
    · rw [hn]; exact (hp ph hph).moderate

theorem prepare_load_spec {vm : Vm} (hspace : vm.t_vmspace = some as) (hdef : Defined segs as) (hram : vm.ram.Ok)
    (htlb : vm.tlb = as_activate) :
    Holds (fun _ => False) prepare_load vm fun r t => r = .ok () → ∃ p1 p2 ps,
      let as' := { as with as_pbase1 := p1, as_pbase2 := p2, as_stackpbase := ps }
      Loading as' vm.ram.lastpaddr t ∧ p1 ≠ 0 ∧ p2 ≠ 0 ∧ ps ≠ 0 ∧ as'.Aligned ∧
        (Moderate as.as_npages1 → Moderate as.as_npages2 → as'.Apart vm.ram.lastpaddr) := by
  unfold prepare_load
  refine holds_bind_run (get_run _) ?_
  rw [hspace]
  dsimp only
  refine Holds.zoom (u := vm)
    (as_prepare_load_spec hram hdef.pbase1 hdef.pbase2 hdef.stackpbase hdef.vbase1 hdef.vbase2) ?_
  rintro r ⟨as', ram'⟩ ⟨hlast, hr⟩ hok
  obtain ⟨p1, p2, ps, rfl, h1, h2, hs, hal, hap⟩ := hr hok
  exact ⟨p1, p2, ps, ⟨rfl, hlast, htlb ▸ activate_agrees _⟩, h1, h2, hs, hal, hap⟩

end Define

/-! ## The second pass -/

def Phdr.range (ph : Phdr) : Set Nat := Set.Ico ph.p_vaddr (ph.p_vaddr + ph.p_memsz)

structure Loaded (as : Addrspace) (last : Nat) (file : File) (segs : List Phdr) (vm : Vm) : Prop where
  loading : Loading as last vm
  placed : ∀ ph ∈ segs, ph.Placed file
  image : as.Apart last → as.Aligned → segs.Pairwise (fun ph ph' => Disjoint ph.range ph'.range) →
    ∀ ph ∈ segs, ∀ i < ph.p_memsz, userByte as vm (ph.p_vaddr + i) = ph.image file i

section Load

variable {as : Addrspace} {last : Nat} {file : File} {segs : List Phdr} {vm t : Vm} {ph : Phdr}

theorem Loaded.load (h : Loaded as last file segs vm) (hl : Loading as last t) (hp : ph.Placed file)
    (hput : Puts as last ph.p_vaddr ph.p_memsz (ph.image file) vm t) : Loaded as last file (segs ++ [ph]) t := by
  refine ⟨hl, fun ph' hph' => ?_, fun hap hal hdis ph' hph' i hi => ?_⟩
  · rcases List.mem_append.mp hph' with hph' | hph'
    · exact h.placed ph' hph'
    · rw [List.mem_singleton.mp hph']; exact hp
  · obtain ⟨hdis, -, hnew⟩ := List.pairwise_append.mp hdis
    rw [hput hap hal]
    rcases List.mem_append.mp hph' with hph' | hph'
    · -- an older segment is outside the one that has just been loaded
      have hin : ph'.p_vaddr + i ∈ ph'.range := ⟨by omega, by omega⟩
      have hd : ¬ (ph.p_vaddr ≤ ph'.p_vaddr + i ∧ ph'.p_vaddr + i < ph.p_vaddr + ph.p_memsz) :=
        Set.disjoint_left.mp (hnew ph' hph' ph (by simp)) hin
      rw [if_neg hd]
      exact h.image hap hal hdis ph' hph' i hi
    · obtain rfl := List.mem_singleton.mp hph'
      rw [if_pos ⟨by omega, by omega⟩, Nat.add_sub_cancel_left]

theorem phdr_words (file : File) (i : Nat) : (file.phdr i).Words := Phdr.decode_words _

theorem segments_words {i n : Nat} (h : ph ∈ file.segmentsFrom i n) : ph.Words := by
  obtain ⟨j, -, rfl⟩ := List.mem_map.mp (List.mem_filter.mp h).1
  exact phdr_words file j

theorem first_offset (file : File) : file.ehdr.e_phoff + 0 * file.ehdr.e_phentsize < 2 ^ 32 := by
  rw [Nat.zero_mul, Nat.add_zero]
  exact ehdr_phoff_lt file

theorem load_elf_pass_rule {X : VmPanic → Prop} {I : List Phdr → Vm → Prop} {body : Phdr → VmM Unit}
    (hpieces : ∀ segs vm ps, I segs vm → I segs { vm with pieces := ps })
    (hbody : ∀ segs ph vm, ph ∈ file.segments → I segs vm →
      Holds X (body ph) vm fun r t => r = .ok () → I (segs ++ [ph]) t) (hi : I [] vm) :
    Holds X (load_elf_loop file file.ehdr body 0 file.ehdr.e_phnum) vm fun r t => r = .ok () → I file.segments t := by
  unfold File.segments at hbody ⊢
  refine (load_elf_loop_rule hpieces [] hbody (first_offset file) hi).imp fun r t h hr => ?_
  have h := h hr
  rwa [List.nil_append] at h

theorem first_pass_spec (file : File) (hspace : vm.t_vmspace = some as_create) :
    Holds (fun _ => False) (load_elf_loop file file.ehdr define_segment 0 file.ehdr.e_phnum) vm fun r t =>
      r = .ok () → ∃ as, t.t_vmspace = some as ∧ defineAll file.segments = .ok as ∧ Defined file.segments as ∧
        t.ram = vm.ram ∧ t.tlb = vm.tlb := by
  refine load_elf_pass_rule (I := fun segs t => ∃ as, t.t_vmspace = some as ∧ defineAll segs = .ok as ∧
    Defined segs as ∧ t.ram = vm.ram ∧ t.tlb = vm.tlb) (fun _ _ _ hi => hi) ?_
    ⟨as_create, hspace, rfl, ⟨rfl, rfl, rfl, rfl, rfl, .inl rfl, .inl rfl⟩, rfl, rfl⟩
  rintro segs ph t - ⟨as, hs, hall, hdef, hr, htl⟩
  refine (define_segment_spec hs hall hdef).imp ?_
  rintro r _ hq hok
  obtain ⟨as', rfl, hall', hdef'⟩ := hq hok
  exact ⟨as', rfl, hall', hdef', hr, htl⟩

theorem second_pass_spec (file : File) (h : Loading as last vm) :
    Holds (fun p => (∃ ph ∈ file.segments, 0 < ph.p_memsz) ∧ Unready as last p)
      (load_elf_loop file file.ehdr (load_phdr file) 0 file.ehdr.e_phnum) vm fun r t =>
        r = .ok () → Loaded as last file file.segments t := by
  refine load_elf_pass_rule (I := Loaded as last file) ?_ ?_ ⟨h, by simp, by simp⟩
  · rintro segs vm' ps' ⟨hl', hp, himg⟩
    exact ⟨⟨hl'.space, hl'.last, hl'.tlb⟩, hp, himg⟩
  · intro segs ph vm' hph hi
    refine (load_phdr_spec hi.loading (segments_words hph)).mono (fun r t'' hq hok => ?_) ?_
    · obtain ⟨hplaced, hput⟩ := hq.2 hok
      exact hi.load hq.1 hplaced hput
    · exact fun p hx => ⟨⟨ph, hph, hx.1⟩, hx.2⟩

theorem load_elf_spec (file : File) (hfresh : vm.Fresh) :
    Holds (fun _ => ¬ file.Loadable) (load_elf file) vm fun r t => ∀ entry, r = .ok entry →
      entry = file.ehdr.e_entry ∧ ∃ as, t.t_vmspace = some as ∧
        (file.segments.Pairwise (fun ph ph' => Disjoint ph.range ph'.range) →
          ∀ ph ∈ file.segments, ph.Placed file ∧
            ∀ i < ph.p_memsz, userByte as t (ph.p_vaddr + i) = ph.image file i) := by
  obtain ⟨hspace, htlb, hram⟩ := hfresh
  unfold load_elf
  have hehdr := read_header_spec file EHDRSIZE 0 (by decide) (by decide) (by decide) vm
  refine (hehdr.mono (fun _ _ => id) fun _ => False.elim).bind ?_ fun _ _ _ _ => nofun
  rintro m _ ⟨⟨ps, rfl⟩, hm⟩
  rw [Ehdr.decode_congr (hm m rfl).2, ← File.ehdr]
  by_cases hsupp : file.ehdr.Supported
  swap
  · rw [if_pos hsupp]
    exact holds_of_run (bind_error (throw_run _ _)) nofun
  rw [if_neg (not_not_intro hsupp)]
  have hspace' : { vm with pieces := ps }.t_vmspace = some as_create := hspace
  refine ((first_pass_spec file hspace').mono (fun _ _ => id) fun _ => False.elim).bind ?_ fun _ _ _ _ => nofun
  intro _ t ht
  obtain ⟨as, hs, hall, hdef, hr, htl⟩ := ht rfl
  have hprep := prepare_load_spec hs hdef (hr ▸ hram) (htl.trans htlb)
  refine (hprep.mono (fun _ _ => id) fun _ => False.elim).bind ?_ fun _ _ _ _ => nofun
  intro _ t' ht'
  obtain ⟨p1, p2, pstack, hl, h1, h2, hps, hal, hap⟩ := ht' rfl
  refine ((second_pass_spec file hl).mono (fun _ _ => id) ?_).bind ?_ fun _ _ _ _ => nofun
  · rintro p ⟨⟨ph, hph, hpos⟩, hun⟩ hload
    rcases hload hsupp as hall with hz | ⟨hv1, hn1, hv2, hn2, hm1, hm2⟩
    · exact absurd (hz ph hph) (by omega)
    · exact hun ⟨⟨hv1, h1, hn1, hv2, h2, hn2, hps⟩, hal, hap hm1 hm2⟩
  · intro _ t'' ht''
    obtain ⟨hl'', hplaced, himg⟩ := ht'' rfl
    obtain ⟨hm1, hm2⟩ := hdef.moderate hplaced
    refine holds_pure ?_
    rintro _ ⟨⟩
    exact ⟨rfl, _, hl''.space, fun hdis ph hph => ⟨hplaced ph hph, himg (hap hm1 hm2) hal hdis ph hph⟩⟩

/-- A program that has been loaded is in user memory as the file describes it. -/
theorem load_elf_image (file : File) {entry : Nat} (hfresh : vm.Fresh) (hrun : load_elf file vm = .ok (.ok entry, t))
    (_hwrap : ∀ ph ∈ file.segments, ph.p_vaddr + ph.p_memsz ≤ 2 ^ 32)
    (hdis : file.segments.Pairwise fun ph ph' => Disjoint ph.range ph'.range) :
    entry = file.ehdr.e_entry ∧ ∃ as, t.t_vmspace = some as ∧ ∀ ph ∈ file.segments, ∀ i < ph.p_memsz,
      ∃ b, userByte as t (ph.p_vaddr + i) = some b ∧
        if i < min ph.p_filesz ph.p_memsz then file[ph.p_offset + i]? = some b else b = 0 := by
  obtain ⟨hentry, as, has, himg⟩ := (load_elf_spec file hfresh).post hrun entry rfl
  refine ⟨hentry, as, has, fun ph hph i hi => ?_⟩
  obtain ⟨⟨-, hfile⟩, hbytes⟩ := himg hdis ph hph
  rw [hbytes i hi, Phdr.image]
  split
  · have hlt : ph.p_offset + i < file.length := by
      have := hfile (by omega)
      omega
    exact ⟨file[ph.p_offset + i], List.getElem?_eq_getElem hlt, List.getElem?_eq_getElem hlt⟩
  · exact ⟨0, rfl, rfl⟩

end Load

/-! ## Two small programs -/

def smallEhdr (n : Nat) : List Byte :=
  [0x7f, 0x45, 0x4c, 0x46, 1, 2, 1, 0, 0, 0, 0, 0, 0, 0, 0, 0, 0, 2, 0, 8, 0, 0, 0, 1, 0, 0x40, 0, 0x10,
    0, 0, 0, 52, 0, 0, 0, 0, 0, 0, 0, 0, 0, 52, 0, 32, 0, BitVec.ofNat 8 n, 0, 0, 0, 0, 0, 0]

def smallPhdr (page offset filesz memsz : Byte) : List Byte :=
  [0, 0, 0, 1, 0, 0, 0, offset, 0, page, 0, 8, 0, 0, 0, 0, 0, 0, 0, filesz, 0, 0, 0, memsz, 0, 0, 0, 7, 0, 0, 16, 0]

def oneSegment : File := smallEhdr 1 ++ smallPhdr 0x40 0 2 2

def twoSegments : File := smallEhdr 2 ++ smallPhdr 0x40 1 2 4 ++ smallPhdr 0x41 0 1 1

def smallVm : Vm := ⟨⟨0x20000, 0x80000⟩, some as_create, as_activate, fun _ => 0, [false, true], [.bytes 9]⟩

theorem smallVm_fresh : smallVm.Fresh := ⟨rfl, rfl, by decide, by decide, by decide, by decide⟩

theorem twoSegments_segments : twoSegments.segments = [⟨1, 1, 0x400008, 2, 4, 7⟩, ⟨1, 0, 0x410008, 1, 1, 7⟩] := by
  decide +kernel

theorem load_elf_image_two_segments : ∃ t as, load_elf twoSegments smallVm = .ok (.ok 0x400010, t) ∧
    t.t_vmspace = some as ∧ userByte as t 0x410008 = some 0x7f := by
  have h : (load_elf twoSegments smallVm).map Prod.fst = .ok (.ok 0x400010) := by decide +kernel
  cases hr : load_elf twoSegments smallVm with
  | error p => rw [hr] at h; cases h
  | ok x =>
    obtain ⟨r, t⟩ := x
    rw [hr] at h
    cases h
    have hdis : twoSegments.segments.Pairwise fun ph ph' => Disjoint ph.range ph'.range := by
      rw [twoSegments_segments]
      refine List.pairwise_pair.mpr (Set.disjoint_left.mpr fun a ha ha' => ?_)
      simp only [Phdr.range, Set.mem_Ico] at ha ha'
      omega
    obtain ⟨-, as, has, himg⟩ := load_elf_image twoSegments smallVm_fresh hr
      (by rw [twoSegments_segments]; decide) hdis
    obtain ⟨b, hb, hbyte⟩ := himg ⟨1, 0, 0x410008, 1, 1, 7⟩ (by rw [twoSegments_segments]; simp) 0 (by decide)
    have hb0 : some 0x7f = some b := hbyte
    exact ⟨t, as, rfl, has, hb.trans hb0.symm⟩

end Os161.Elf
