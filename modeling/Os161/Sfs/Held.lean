import Os161.Sfs.Calls

/-! # References held in the middle of a call

A call that began in one state of a volume and holds some references to its vnodes: the files and the other
counts are what they were.
-/

namespace Os161

open Prog Words

/-! ## Counts -/

def moreRefs (c : Option (Int × Int)) (n : Nat) : Option (Int × Int) :=
  if n = 0 then c else some (toI32 ((c.getD (0, 0)).1 + n), (c.getD (0, 0)).2)

def Sfs.Counted (s : Sfs) : Prop :=
  ∀ j v, s.vnodes j = some v →
    0 < v.vn_refcount ∧ v.vn_refcount < 2 ^ 31 ∧ -2 ^ 31 ≤ v.vn_opencount ∧ v.vn_opencount < 2 ^ 31

section Counts

variable {s t : Sfs} {i : Nat} {v : Vnode} {c : Option (Int × Int)} {n : Nat}

@[simp] theorem moreRefs_zero : moreRefs c 0 = c := rfl

theorem moreRefs_pos (h : n ≠ 0) : moreRefs c n = some (toI32 ((c.getD (0, 0)).1 + n), (c.getD (0, 0)).2) :=
  if_neg h

theorem moreRefs_eq_none : moreRefs c n = none ↔ n = 0 ∧ c = none := by
  rw [moreRefs]
  split
  · simp [*]
  · simp [*]

theorem moreRefs_succ : moreRefs c (n + 1) = moreRefs (moreRefs c n) 1 := by
  rcases Nat.eq_zero_or_pos n with rfl | hn
  · rfl
  · rw [moreRefs_pos (c := c) (by omega), moreRefs_pos (by omega), moreRefs_pos (by omega), Option.getD_some,
      toI32_toI32_add]
    congr 3
    push_cast
    omega

theorem toI32_pred {x : Int} (h : 0 < toI32 (x + 1)) : toI32 x = toI32 (x + 1) - 1 := by
  simp only [toI32, Int.bmod_def] at *
  omega

theorem eq_zero_of_toI32_succ {x : Int} (h0 : 0 ≤ x) (h1 : x < 2 ^ 32) (h : toI32 (x + 1) = 1) : x = 0 := by
  unfold toI32 at h
  rw [Int.bmod_def] at h
  omega

theorem moreRefs_back {x y : Int} (hc : ∀ a b, c = some (a, b) → 0 < a ∧ a < 2 ^ 31) (hn : n < 2 ^ 31)
    (h : moreRefs c (n + 1) = some (x, y)) (hx : 0 < x) :
    (1 < x → moreRefs c n = some (x - 1, y)) ∧ (x = 1 → moreRefs c n = none) := by
  have hsmall : 0 ≤ (c.getD (0, 0)).1 ∧ (c.getD (0, 0)).1 < 2 ^ 31 ∧ ((c.getD (0, 0)).1 = 0 → c = none) := by
    cases c with
    | none => exact ⟨by decide, by decide, fun _ => rfl⟩
    | some p =>
      obtain ⟨ha, hmax⟩ := hc p.1 p.2 rfl
      exact ⟨by simp; omega, hmax, fun h0 => by simp at h0; omega⟩
  rw [moreRefs_pos (by omega)] at h
  obtain ⟨hx', rfl⟩ := Prod.mk.inj (Option.some.inj h)
  rw [show (c.getD (0, 0)).1 + ((n + 1 : Nat) : Int) = (c.getD (0, 0)).1 + n + 1 by push_cast; omega] at hx'
  subst hx'
  refine ⟨fun h1 => ?_, fun h1 => ?_⟩
  · have hpred := toI32_pred hx
    rcases Nat.eq_zero_or_pos n with rfl | hpos
    · cases c with
      | none => exact absurd h1 (by decide)
      | some p =>
        have : toI32 ((some p).getD (0, 0)).1 = ((some p).getD (0, 0)).1 := toI32_of_small (by omega) hsmall.2.1
        rw [moreRefs_zero, ← hpred, Int.natCast_zero, add_zero, this]
        rfl
    · rw [moreRefs_pos (by omega), hpred]
  · have hzero := eq_zero_of_toI32_succ (by omega) (by omega) h1
    exact moreRefs_eq_none.mpr ⟨by omega, hsmall.2.2 (by omega)⟩

theorem Sfs.Counted.refs (h : s.Counted) : ∀ a b, s.counts i = some (a, b) → 0 < a ∧ a < 2 ^ 31 := by
  intro a b hab
  obtain ⟨v, hv, he⟩ := Option.map_eq_some_iff.mp hab
  obtain ⟨rfl, rfl⟩ := Prod.mk.inj he
  exact ⟨(h i v hv).1, (h i v hv).2.1⟩

theorem Loading.counts {r : Except Errno Nat} (h : Loading s i r t) :
    (∀ e, r = .error e → t.counts = s.counts) ∧
    ∀ a, r = .ok a → a = i ∧ t.counts = Function.update s.counts i (moreRefs (s.counts i) 1) := by
  cases h with
  | failed e heap => exact ⟨fun _ _ => rfl, by simp⟩
  | again hv =>
    refine ⟨by simp, fun a ha => ⟨(Except.ok.inj ha).symm, ?_⟩⟩
    rw [counts_of_update rfl, counts_some hv]
    rfl
  | new hnone ha =>
    refine ⟨by simp, fun a ha => ⟨(Except.ok.inj ha).symm, ?_⟩⟩
    have hcount : s.counts i = none := by
      rw [Sfs.counts, hnone]
      rfl
    rw [counts_of_update rfl, hcount]
    rfl

end Counts

/-! ## A call in progress -/

structure Held (s : Sfs) (r : Nat → Nat) (t : Sfs) : Prop where
  inv : Inv 0 t
  intact : Intact {j | s.Live j ∧ j ≠ SFS_ROOT_LOCATION} s t
  counts : ∀ j, t.counts j = moreRefs (s.counts j) (r j)
  live : ∀ j, r j ≠ 0 → s.Live j

namespace Held

variable {s t t' : Sfs} {r : Nat → Nat} {i : Nat} {v : Vnode}

theorem refl (h : Inv 0 s) : Held s 0 s := ⟨h, .refl _ s, fun _ => rfl, fun _ h0 => absurd rfl h0⟩

theorem live_iff (h : Held s r t) (j : Nat) : t.Live j ↔ s.Live j := by
  rw [Sfs.Live, Sfs.Live, named_of_dirent h.intact.dirent, loaded_iff_counts, loaded_iff_counts, h.counts, ne_eq,
    moreRefs_eq_none]
  constructor
  · rintro (hj | hj | hj)
    · exact .inl hj
    · exact .inr (.inl hj)
    · by_cases h0 : r j = 0
      · exact .inr (.inr fun hc => hj ⟨h0, hc⟩)
      · have := h.live j h0
        rwa [Sfs.Live, loaded_iff_counts] at this
  · rintro (hj | hj | hj)
    · exact .inl hj
    · exact .inr (.inl hj)
    · exact .inr (.inr fun hc => hj hc.2)

theorem step {r' : Nat → Nat} (h : Held s r t) (hinv : Inv 0 t')
    (hint : Intact {j | t.Live j ∧ j ≠ SFS_ROOT_LOCATION} t t')
    (hcounts : ∀ j, t'.counts j = moreRefs (s.counts j) (r' j)) (hlive : ∀ j, r' j ≠ 0 → s.Live j) :
    Held s r' t' :=
  ⟨hinv, h.intact.trans (hint.mono fun j hj => ⟨(h.live_iff j).mpr hj.1, hj.2⟩), hcounts, hlive⟩

theorem same (h : Held s r t) (hinv : Inv 0 t') (hint : Intact {j | t.Live j ∧ j ≠ SFS_ROOT_LOCATION} t t')
    (hcounts : t'.counts = t.counts) : Held s r t' :=
  h.step hinv hint (fun j => by rw [hcounts, h.counts]) h.live

theorem take (h : Held s r t) (hi : t.Live i) (hinv : Inv 0 t')
    (hint : Intact {j | t.Live j ∧ j ≠ SFS_ROOT_LOCATION} t t')
    (hcounts : t'.counts = Function.update t.counts i (moreRefs (t.counts i) 1)) :
    Held s (Function.update r i (r i + 1)) t' := by
  refine h.step hinv hint (fun j => ?_) fun j hj => ?_
  · by_cases hji : j = i
    · subst hji
      rw [hcounts, Function.update_self, Function.update_self, h.counts]
      exact moreRefs_succ.symm
    · rw [hcounts, Function.update_of_ne hji, Function.update_of_ne hji, h.counts]
  · by_cases hji : j = i
    · subst hji
      exact (h.live_iff j).mp hi
    · rw [Function.update_of_ne hji] at hj
      exact h.live j hj

theorem loadvnode (h : Held s r t) (hi : t.Live i) :
    Holds (fun _ => True) (sfs_loadvnode i SFS_TYPE_INVAL) t fun res t' =>
      (∀ e, res = .error e → Held s r t') ∧
      ∀ a, res = .ok a → a = i ∧ Held s (Function.update r i (r i + 1)) t' := by
  refine (sfs_loadvnode_cases h.inv hi).imp fun res t' ht => ?_
  have hsince : Since ⟨True, True⟩ t 0 t' := ht.since ⟨h.inv, .refl t⟩ hi
  have hinv := hsince.toInv
  obtain ⟨hsect, hino⟩ := ht.same
  obtain ⟨hfail, hload⟩ := ht.counts
  refine ⟨fun e he => h.same hinv (.of_same_blocks hsect hino) (hfail e he), fun a ha => ?_⟩
  obtain ⟨rfl, hcounts⟩ := hload a ha
  exact ⟨rfl, h.take hi hinv (.of_same_blocks hsect hino) hcounts⟩

theorem incref (h : Held s r t) (hv : t.vnodes i = some v) :
    Holds (fun _ => True) (vnode_incref i) t fun res t' => res = .ok () ∧ Held s (Function.update r i (r i + 1)) t' := by
  have hload := Loading.again hv
  have hsince : Since ⟨True, True⟩ t 0 _ := hload.since ⟨h.inv, .refl t⟩ (live_of_vnode hv)
  refine holds_of_run (modv_run hv _) ⟨rfl, h.take (live_of_vnode hv) hsince.toInv ?_ (hload.counts.2 i rfl).2⟩
  exact .of_same_blocks rfl hload.same.2

theorem loaded (h : Held s r t) (hi : r i ≠ 0) : ∃ v, t.vnodes i = some v := by
  rw [loaded_iff_counts, h.counts, ne_eq, moreRefs_eq_none]
  exact fun hc => hi hc.1

theorem decref (h : Held s (Function.update r i (r i + 1)) t) (hs : s.Counted) (hr : r i < 2 ^ 31) :
    Holds (fun _ => True) (vnode_decref i) t fun res t' => res = .ok () ∧ Held s r t' := by
  have hlive : ∀ j, r j ≠ 0 → s.Live j := by
    intro j hj
    refine h.live j ?_
    by_cases hji : j = i
    · subst hji
      simp
    · rwa [Function.update_of_ne hji]
  have hi : s.Live i := h.live i (by simp)
  obtain ⟨v, hv⟩ := h.loaded (i := i) (by simp)
  have hcount : moreRefs (s.counts i) (r i + 1) = some (v.vn_refcount, v.vn_opencount) := by
    rw [← counts_some hv, h.counts, Function.update_self]
  have hcounts {t' : Sfs} {c : Option (Int × Int)} (hc : t'.counts = Function.update t.counts i c)
      (hback : moreRefs (s.counts i) (r i) = c) (j : Nat) : t'.counts j = moreRefs (s.counts j) (r j) := by
    rw [hc]
    by_cases hji : j = i
    · subst hji
      rw [Function.update_self, hback]
    · rw [Function.update_of_ne hji, h.counts, Function.update_of_ne hji]
  have hsince : Since ⟨True, True⟩ t 0 t := ⟨h.inv, .refl t⟩
  refine (vnode_decref_walk hsince hv).mono ?_ fun _ _ => trivial
  rintro res t' ⟨hres, hinv, hdrop⟩
  refine ⟨hres, ?_⟩
  cases hdrop with
  | fewer h1 ht =>
    subst ht
    refine h.step hinv.toInv (.of_same_blocks rfl (inodeOf_set_same hv rfl)) (hcounts (counts_of_update rfl) ?_) hlive
    exact (moreRefs_back hs.refs hr hcount (by omega)).1 h1
  | last hlast =>
    have hback := (moreRefs_back hs.refs hr hcount (by have := hlast.last.1; omega)).2 hlast.last.1
    refine h.step hinv.toInv (hlast.intact.mono fun j hj => ⟨hj.1, ?_⟩) (hcounts hlast.counts hback) hlive
    -- the vnode was not in memory when the call began, so it has a name
    rintro rfl
    rcases hi with hroot | hname | hvn
    · exact .inl hroot
    · rw [← named_of_dirent h.intact.dirent] at hname
      exact .inr hname
    · exact absurd (moreRefs_eq_none.mp hback).2 (loaded_iff_counts.mp hvn)

def Takes {α : Type} (s : Sfs) (r : Nat → Nat) (f : α → Nat) (res : Except Errno α) (t : Sfs) : Prop :=
  (∀ e, res = .error e → Held s r t) ∧ ∀ a, res = .ok a → Held s (Function.update r (f a) (r (f a) + 1)) t

theorem takes_error {α : Type} {f : α → Nat} {e : Errno} (h : Held s r t) : Takes s r f (.error e) t :=
  ⟨fun _ _ => h, fun _ ha => by cases ha⟩

theorem takes_ok {α : Type} {f : α → Nat} {a : α} (h : Held s (Function.update r (f a) (r (f a) + 1)) t) :
    Takes s r f (.ok a) t :=
  ⟨fun _ he => (by cases he), fun _ ha => by
    obtain rfl := Except.ok.inj ha
    exact h⟩

theorem getroot (h : Held s r t) :
    Holds (fun _ => True) sfs_getroot t fun res t' => Takes s r id res t' ∧ ∃ a, res = .ok a := by
  rw [sfs_getroot]
  refine (h.loadvnode (live_root t)).bind_attempt fun res t' ht => ?_
  cases res with
  | error e => exact holds_stop trivial
  | ok a =>
    obtain ⟨rfl, ht'⟩ := ht.2 a rfl
    exact holds_pure ⟨takes_ok ht', _, rfl⟩

theorem lookup (h : Held s r t) (hv : t.vnodes SFS_ROOT_LOCATION = some v) (path : CStr) :
    Holds (fun _ => True) (sfs_lookup SFS_ROOT_LOCATION path) t (Takes s r id) := by
  rw [sfs_lookup]
  refine holds_bind_run (getv_run hv) ?_
  split
  · exact holds_throw (takes_error h)
  have honce : Holds (fun _ => True) (sfs_lookonce SFS_ROOT_LOCATION path) t (Takes s r Prod.fst) := by
    rw [sfs_lookonce]
    obtain ⟨_, _, run, ht, l, rfl, hl⟩ := (sfs_dir_findname_spec (X := fun _ => False) h.inv hv path).exists
    subst ht
    refine holds_bind_run run ?_
    cases hf : l.found with
    | none => exact holds_throw (takes_error h)
    | some p =>
      obtain ⟨ino, slot⟩ := p
      have hnamed : Sfs.named _ slot = some ino := congrArg (Option.map Prod.fst) (hl.found ino slot hf).2
      dsimp only
      refine (h.loadvnode (live_of_named hnamed)).bind ?_ fun e t' ht => takes_error (ht.1 e rfl)
      intro ret t' ht
      obtain ⟨rfl, ht'⟩ := ht.2 ret rfl
      obtain ⟨w, hw⟩ := ht'.loaded (i := ret) (by simp)
      refine holds_bind_run (getv_run hw) (holds_ensure_bind (.inr trivial) fun _ => holds_pure (takes_ok ht'))
  exact honce.bind (fun p t' ht => holds_pure (takes_ok (ht.2 p rfl))) fun e t' ht => takes_error (ht.1 e rfl)

end Held

/-! ## Creating a file -/

structure OpenFile (i : Nat) (t : Sfs) : Prop where
  inv : Inv 0 t
  file : i ≠ SFS_ROOT_LOCATION
  loaded : ∃ v, t.vnodes i = some v

section Creat

variable {s t : Sfs} {r : Nat → Nat} {v : Vnode}

theorem Making.intact {res : Except Errno Nat} {t₁ : Sfs} (h : Inv 0 t) (hmake : Making t res t₁) :
    Intact t.liveSet t t₁ :=
  .of_untouched (fun _ hj => h.pos hj) (live_root t) fun _ hj => hmake.untouched h hj

theorem Making.live {res : Except Errno Nat} {t₁ : Sfs} (h : Inv 0 t) (hmake : Making t res t₁) {j : Nat}
    (hj : t.Live j) : t₁.Live j := by
  have hvn := (hmake.untouched h hj).vnode
  have hnamed := named_of_dirent (hmake.dirent h)
  rwa [Sfs.Live, hvn, hnamed]

theorem Making.counts {res : Except Errno Nat} {t₁ : Sfs} (h : Inv 0 t) (hmake : Making t res t₁) :
    (∀ e, res = .error e → t₁.counts = t.counts) ∧
    ∀ b, res = .ok b → ¬ t.Live b ∧ t₁.vnodes b = some newVnode ∧
      t₁.counts = Function.update t.counts b (some (1, 0)) := by
  cases hmake with
  | full e => exact ⟨fun _ _ => rfl, by simp⟩
  | lost e heap hb hlose =>
    refine ⟨fun _ _ => ?_, by simp⟩
    funext j
    exact congrArg (fun w : Nat → Option Vnode => (w j).map fun v => (v.vn_refcount, v.vn_opencount)) hb.vnodes
  | @made b s₁ a heap hb ha =>
    refine ⟨by simp, fun b' he => ?_⟩
    obtain rfl := Except.ok.inj he
    refine ⟨fun hl => hb.fresh (h.mem_used hl), Function.update_self _ _ _, ?_⟩
    have hvn : ({ s₁ with sfs_vnodes := a, heap := heap }.setVnode b (some newVnode)).vnodes =
        Function.update t.vnodes b (some newVnode) := by rw [← hb.vnodes]; rfl
    exact counts_of_update hvn

theorem Held.decref_new {b : Nat} {t₁ t₂ : Sfs} (h : Held s r t) (hmake : Making t (.ok b) t₁)
    (hstep : FileStep t₁.liveSet SFS_ROOT_LOCATION t₁ t₂) (hinv : Inv 0 t₂) (hdir : t₂.dirent = t₁.dirent) :
    Holds (fun _ => True) (vnode_decref b) t₂ fun res t₃ => res = .ok () ∧ Held s r t₃ := by
  obtain ⟨hnot, hb₁, hcounts⟩ := (hmake.counts h.inv).2 b rfl
  have hroot : b ≠ SFS_ROOT_LOCATION := fun hr => hnot (.inl hr)
  have hb₂ : t₂.vnodes b = some newVnode := (hstep.vnodes b hroot).trans hb₁
  have hsince : Since ⟨True, True⟩ t₂ 0 t₂ := ⟨hinv, .refl t₂⟩
  refine (vnode_decref_walk hsince hb₂).mono ?_ fun _ _ => trivial
  rintro res t₃ ⟨hres, hinv₃, hdrop⟩
  refine ⟨hres, ?_⟩
  cases hdrop with
  | fewer h1 => exact absurd h1 (by decide)
  | last hlast =>
    have hnone : t.counts b = none := by
      by_contra hne
      exact hnot (.inr (.inr (loaded_iff_counts.mpr hne)))
    have hcounts₃ : t₃.counts = t.counts := by
      rw [hlast.counts, hstep.counts, hcounts, Function.update_idem, Function.update_eq_self_iff, hnone]
    refine h.same hinv₃.toInv (((hmake.intact h.inv).mono fun j hj => hj.1).trans (.trans ⟨hdir, ?_, ?_⟩
      (hlast.intact.mono ?_))) hcounts₃
    · exact fun j hj => (hstep.others j (hmake.live h.inv hj.1) hj.2).inodeOf (h.inv.pos hj.1)
    · exact fun j hj => (hstep.others j (hmake.live h.inv hj.1) hj.2).fileByte (h.inv.pos hj.1)
    · intro j hj
      refine ⟨(live_of_same hdir hstep.counts).mpr (hmake.live h.inv hj.1), ?_⟩
      rintro rfl
      exact absurd hj.1 hnot

theorem Held.creat_new (h : Held s r t) (hv : t.vnodes SFS_ROOT_LOCATION = some v) (name : CStr) :
    Holds (fun _ => True) (sfs_creat_new SFS_ROOT_LOCATION name) t fun res t' =>
      (∀ e, res = .error e → Held s r t') ∧ ∀ a, res = .ok a → OpenFile a t' := by
  have hsince : Since ⟨True, True⟩ t 0 t := ⟨h.inv, .refl t⟩
  rw [sfs_creat_new]
  refine ((sfs_makeobj_spec hsince fun _ => trivial).and (sfs_makeobj_cases (X := fun _ => True) h.inv)).bind ?_ ?_
  · rintro b t₁ ⟨⟨h₁, -, hmono, -⟩, hmake⟩
    obtain ⟨hnot, hb₁, -⟩ := (hmake.counts h.inv).2 b rfl
    have hroot : b ≠ SFS_ROOT_LOCATION := fun hr => hnot (.inl hr)
    refine (sfs_dir_link_spec h₁ (hmono _ v hv) (live_of_vnode hb₁) (fun hr => absurd hr hroot) name).bind_attempt ?_
    rintro res t₂ ⟨hstep, hpost⟩
    cases res with
    | error e =>
      refine (h.decref_new hmake hstep hpost.1.toInv hpost.2).bind_done fun t₃ ht₃ => ?_
      exact holds_throw ⟨fun _ _ => ht₃, by simp⟩
    | ok slot =>
      have hb₂ : t₂.vnodes b = some newVnode := (hstep.vnodes b hroot).trans hb₁
      obtain ⟨v', hrun, -, -, h₃⟩ := sfs_linkcount_inc_run hpost.1 hb₂
      refine holds_bind_run hrun (holds_pure ⟨by simp, fun a ha => ?_⟩)
      obtain rfl := Except.ok.inj ha
      exact ⟨h₃.toInv, hroot, v', Function.update_self _ _ _⟩
  · rintro e t₁ ⟨⟨h₁, -⟩, hmake⟩
    refine ⟨fun _ _ => h.same h₁.toInv ((hmake.intact h.inv).mono fun j hj => hj.1) ?_, by simp⟩
    exact (hmake.counts h.inv).1 e rfl

theorem Held.creat (h : Held s r t) (hv : t.vnodes SFS_ROOT_LOCATION = some v) (name : CStr) (excl : Bool) :
    Holds (fun _ => True) (sfs_creat SFS_ROOT_LOCATION name excl) t fun res t' =>
      Held.Takes s r id res t' ∨ ∃ a, res = .ok a ∧ OpenFile a t' := by
  rw [sfs_creat]
  obtain ⟨_, _, run, ht, l, rfl, hl⟩ := (sfs_dir_findname_spec (X := fun _ => False) h.inv hv name).exists
  subst ht
  refine holds_bind_run run ?_
  cases hf : l.found with
  | none =>
    refine (h.creat_new hv name).imp fun res t' ht => ?_
    cases res with
    | error e => exact .inl (Held.takes_error (ht.1 e rfl))
    | ok a => exact .inr ⟨a, rfl, ht.2 a rfl⟩
  | some p =>
    obtain ⟨ino, slot⟩ := p
    have hnamed : Sfs.named _ slot = some ino := congrArg (Option.map Prod.fst) (hl.found ino slot hf).2
    cases excl with
    | true => exact holds_throw (.inl (Held.takes_error h))
    | false =>
      refine (h.loadvnode (live_of_named hnamed)).imp fun res t' ht => .inl ?_
      cases res with
      | error e => exact Held.takes_error (ht.1 e rfl)
      | ok a =>
        obtain ⟨rfl, ht'⟩ := ht.2 a rfl
        exact Held.takes_ok ht'

end Creat

/-! ## Opening and truncating -/

section Open

variable {s t : Sfs} {r : Nat → Nat} {i j : Nat} {v : Vnode}

theorem setVnode_back (hv : t.vnodes i = some v) (w : Option Vnode) : (t.setVnode i w).setVnode i (some v) = t := by
  simp only [Sfs.setVnode, Function.update_idem, ← hv, Function.update_eq_self]

theorem Held.opencount (h : Held s r t) (hs : s.Counted) (hv : t.vnodes i = some v) :
    -2 ^ 31 ≤ v.vn_opencount ∧ v.vn_opencount < 2 ^ 31 := by
  have hcount := (counts_some hv).symm.trans (h.counts i)
  cases hv₀ : s.vnodes i with
  | none =>
    have hnone : s.counts i = none := by rw [Sfs.counts, hv₀]; rfl
    rw [hnone, moreRefs] at hcount
    split at hcount
    · cases hcount
    · obtain ⟨-, h0⟩ := Prod.mk.inj (Option.some.inj hcount)
      rw [h0]
      decide
  | some v₀ =>
    have hsame : v.vn_opencount = v₀.vn_opencount := by
      rw [counts_some hv₀, moreRefs] at hcount
      split at hcount
      · exact (Prod.mk.inj (Option.some.inj hcount)).2
      · exact (Prod.mk.inj (Option.some.inj hcount)).2
    rw [hsame]
    exact (hs i v₀ hv₀).2.2

theorem Held.decopen (h : Held s r t) (hv : t.vnodes i = some v)
    (hopen : -2 ^ 31 ≤ v.vn_opencount ∧ v.vn_opencount < 2 ^ 31) :
    Holds (fun _ => True) (vnode_decopen i) (t.setVnode i (some { v with vn_opencount := toI32 (v.vn_opencount + 1) }))
      fun res t' => res = .ok () ∧ Held s r t' := by
  have hv₁ : (t.setVnode i (some { v with vn_opencount := toI32 (v.vn_opencount + 1) })).vnodes i =
      some { v with vn_opencount := toI32 (v.vn_opencount + 1) } := Function.update_self _ _ _
  rw [vnode_decopen]
  refine holds_bind_run (getv_run hv₁) (holds_ensure_bind (.inr trivial) fun hpos => holds_bind_run (modv_run hv₁ _) ?_)
  have hback : toI32 (v.vn_opencount + 1) - 1 = v.vn_opencount := by
    rw [← toI32_pred hpos, toI32_of_small hopen.1 hopen.2]
  have hsync : Holds (fun _ => True) (VOP_FSYNC i) t fun _ t' => Held s r t' := by
    have hsince : Since ⟨True, True⟩ t 0 t := ⟨h.inv, .refl t⟩
    obtain ⟨t', hrun, h', hfiles, -, -, hvn⟩ := sfs_sync_inode_run hsince hv
    rw [VOP_FSYNC]
    refine vnode_check_bind trivial hv false (holds_of_run hrun (h.same h'.toInv (hfiles.intact.mono fun j hj => hj.1) ?_))
    rw [counts_of_update hvn, Function.update_eq_self_iff, counts_some hv]
    rfl
  simp only [hback, setVnode_back hv]
  split
  · exact holds_pure ⟨rfl, h⟩
  · exact vnode_check_bind trivial hv false (hsync.bind_attempt fun _ t' ht => holds_pure ⟨rfl, ht⟩)

theorem truncate_error (h : Inv 0 t) (hv : t.vnodes i = some v) (len : Int) :
    Holds (fun _ => True) (VOP_TRUNCATE i len) t fun res t' =>
      (∀ e, res = .error e → t' = t) ∧ (i ≠ SFS_ROOT_LOCATION → res = .ok ()) := by
  rw [VOP_TRUNCATE]
  refine vnode_check_bind trivial hv false (holds_bind_run (getv_run hv) ?_)
  rw [h.ops i v hv, opsOf]
  by_cases hi : i = SFS_ROOT_LOCATION
  · rw [if_pos hi]
    exact holds_throw ⟨fun _ _ => rfl, fun hne => absurd hi hne⟩
  · rw [if_neg hi]
    obtain ⟨t', hrun, -⟩ := sfs_truncate_run h.good (live_of_vnode hv) hv len
    exact holds_of_run hrun ⟨by simp, fun _ => rfl⟩

theorem OpenFile.decref (h : OpenFile i t) (hne : j ≠ i) (hv : t.vnodes j = some v) :
    Holds (fun _ => True) (vnode_decref j) t fun res t' => res = .ok () ∧ OpenFile i t' := by
  have hsince : Since ⟨True, True⟩ t 0 t := ⟨h.inv, .refl t⟩
  refine (vnode_decref_walk hsince hv).mono ?_ fun _ _ => trivial
  rintro res t' ⟨hres, hinv, hdrop⟩
  refine ⟨hres, hinv.toInv, h.file, ?_⟩
  rw [loaded_iff_counts]
  cases hdrop with
  | fewer h1 ht =>
    rw [ht, counts_of_update rfl, Function.update_of_ne hne.symm]
    exact loaded_iff_counts.mp h.loaded
  | last hlast =>
    rw [hlast.counts, Function.update_of_ne hne.symm]
    exact loaded_iff_counts.mp h.loaded

theorem OpenFile.incopen (h : OpenFile i t) :
    Holds (fun _ => True) (vnode_incopen i) t fun res t' => res = .ok () ∧ OpenFile i t' := by
  obtain ⟨v, hv⟩ := h.loaded
  have hsince : Since ⟨True, True⟩ t 0 t := ⟨h.inv, .refl t⟩
  refine holds_of_run (modv_run hv _) ⟨rfl, (hsince.set_refs hv ?_ ?_ ?_).toInv, h.file, _, Function.update_self _ _ _⟩
  all_goals rfl

end Open

end Os161
