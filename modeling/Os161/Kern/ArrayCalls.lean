import Os161.Kern.Slots

/-! # The resizable array is a list -/

namespace Os161.Slots

open Prog Calls

/-! ## Calls -/

inductive ArrayCall (α : Type) where
  | add (guy : α)
  | setsize (nguys : Nat)
  | preallocate (nguys : Nat)
  | setguy (index : Nat) (ptr : α)
  | getguy (index : Nat)
  | getnum
  | remove (index : Nat)
  deriving DecidableEq, Repr

inductive ArrayAnswer (α : Type) where
  | done
  | failed (e : Errno)
  | guy (ptr : α)
  | num (n : Nat)
  deriving DecidableEq, Repr

section

variable {α : Type}

def answer (a : SlotArray α) : Except Stop (Except Errno (SlotArray α) × Blocks α) →
    Option (ArrayAnswer α × SlotArray α × Blocks α)
  | .ok (.ok b, h) => some (.done, b, h)
  | .ok (.error e, h) => some (.failed e, a, h)
  | .error _ => none

def array_call : ArrayCall α → SlotArray α × Blocks α → Option (ArrayAnswer α × SlotArray α × Blocks α)
  | .add guy, (a, h) => answer a (array_add a guy h)
  | .setsize nguys, (a, h) => answer a (array_setsize a nguys h)
  | .preallocate nguys, (a, h) => answer a (array_preallocate a nguys h)
  | .setguy index ptr, (a, h) => answer a (array_setguy a index ptr h)
  | .getguy index, (a, h) =>
    match array_getguy a index h with
    | .ok (.ok ptr, h) => some (.guy ptr, a, h)
    | _ => none
  | .getnum, (a, h) => some (.num (array_getnum a), a, h)
  | .remove index, (a, h) => answer a (array_remove a index h)

def May (s : SlotArray α × Blocks α) : ArrayCall α → Prop
  | .add _ => s.1.num = s.1.max → 2 ^ 32 ≤ (s.1.max + 1) * 2 * 4 → s.2.next.1.isNone = true
  | .setsize nguys => nguys ≤ 2 ^ 28
  | .preallocate nguys => nguys ≤ 2 ^ 28
  | .setguy index _ => index < s.1.num
  | .getguy index => index < s.1.num
  | .getnum => True
  | .remove index => index < s.1.num

instance decidableMay (s : SlotArray α × Blocks α) : (c : ArrayCall α) → Decidable (May s c)
  | .add _ => inferInstanceAs
    (Decidable (s.1.num = s.1.max → 2 ^ 32 ≤ (s.1.max + 1) * 2 * 4 → s.2.next.1.isNone = true))
  | .setsize nguys => inferInstanceAs (Decidable (nguys ≤ 2 ^ 28))
  | .preallocate nguys => inferInstanceAs (Decidable (nguys ≤ 2 ^ 28))
  | .setguy index _ => inferInstanceAs (Decidable (index < s.1.num))
  | .getguy index => inferInstanceAs (Decidable (index < s.1.num))
  | .getnum => isTrue trivial
  | .remove index => inferInstanceAs (Decidable (index < s.1.num))

def Blocks.Enough (h h' : Blocks α) : Prop := h' = h ∨ h.Served h'

def ArrayCall.Allocates : ArrayCall α → Prop
  | .add _ | .setsize _ | .preallocate _ => True
  | _ => False

inductive AsList : List α × Blocks α → ArrayCall α → ArrayAnswer α → List α × Blocks α → Prop
  | add {l : List α} {h h' : Blocks α} {guy : α} : h.Enough h' → AsList (l, h) (.add guy) .done (l ++ [guy], h')
  | setsize {l ext : List α} {h h' : Blocks α} {nguys : Nat} : h.Enough h' → (l.take nguys ++ ext).length = nguys →
      AsList (l, h) (.setsize nguys) .done (l.take nguys ++ ext, h')
  | preallocate {l : List α} {h h' : Blocks α} {nguys : Nat} : h.Enough h' →
      AsList (l, h) (.preallocate nguys) .done (l, h')
  | nomem {l : List α} {h h' : Blocks α} {c : ArrayCall α} : c.Allocates → h.Refused h' →
      AsList (l, h) c (.failed .ENOMEM) (l, h')
  | setguy {l : List α} {h : Blocks α} {index : Nat} {ptr : α} : index < l.length →
      AsList (l, h) (.setguy index ptr) .done (l.set index ptr, h)
  | getguy {l : List α} {h : Blocks α} {index : Nat} {ptr : α} : l[index]? = some ptr →
      AsList (l, h) (.getguy index) (.guy ptr) (l, h)
  | getnum {l : List α} {h : Blocks α} : AsList (l, h) .getnum (.num l.length) (l, h)
  | remove {l : List α} {h : Blocks α} {index : Nat} : index < l.length →
      AsList (l, h) (.remove index) .done (l.eraseIdx index, h)

end

/-! ## One call -/

section Call

variable {α : Type} {a : SlotArray α} {h : Blocks α}

theorem fits_of_may (ha : a.Wf) {guy : α} (hmay : May (a, h) (.add guy)) (hfull : a.num = a.max) :
    Fits (a.num + 1) h := by
  have hsmall := ha.small
  have heven := ha.even
  by_cases hbig : 2 ^ 32 ≤ (a.max + 1) * 2 * 4
  · exact .inr ⟨by omega, Option.isNone_iff_eq_none.mp (hmay hfull hbig)⟩
  · exact .inl (by omega)

theorem array_call_asList (c : ArrayCall α) (s : SlotArray α × Blocks α) (ha : s.1.Wf) (hmay : May s c) :
    ∃ r t, array_call c s = some (r, t) ∧ t.1.Wf ∧ AsList (s.1.toList, s.2) c r (t.1.toList, t.2) := by
  obtain ⟨a, h⟩ := s
  change a.Wf at ha
  cases c with
  | add guy =>
    obtain ⟨r, h', hrun, hpost⟩ := (array_add_spec ha (fits_of_may ha hmay) guy).exists
    rcases hpost with ⟨rfl, hrefused, -⟩ | ⟨b, rfl, hmem, hb, hlist, -⟩
    · exact ⟨.failed .ENOMEM, (a, h'), by rw [array_call, hrun]; rfl, ha, .nomem trivial hrefused⟩
    · refine ⟨.done, (b, h'), by rw [array_call, hrun]; rfl, hb, ?_⟩
      rw [hlist]
      exact .add (hmem.imp And.left And.left)
  | setsize nguys =>
    have hsize : nguys ≤ 2 ^ 28 := hmay
    obtain ⟨r, h', hrun, hpost⟩ := (array_setsize_spec (h := h) ha fun _ => .inl (show nguys < 2 ^ 29 by omega)).exists
    rcases hpost with ⟨rfl, hrefused, -⟩ | ⟨b, ext, rfl, hmem, hb, hnum, hlist, -⟩
    · exact ⟨.failed .ENOMEM, (a, h'), by rw [array_call, hrun]; rfl, ha, .nomem trivial hrefused⟩
    · have hlen : (a.toList.take nguys ++ ext).length = nguys := by rw [← hlist, hb.length_toList, hnum]
      refine ⟨.done, (b, h'), by rw [array_call, hrun]; rfl, hb, ?_⟩
      rw [hlist]
      exact .setsize (hmem.imp And.left And.left) hlen
  | preallocate nguys =>
    have hsize : nguys ≤ 2 ^ 28 := hmay
    obtain ⟨r, h', hrun, hpost⟩ := (array_preallocate_spec (h := h) ha (.inl (show nguys < 2 ^ 29 by omega))).exists
    rcases hpost with ⟨rfl, hrefused⟩ | ⟨b, rfl, hserved, hb, -, -, -, hlist⟩
    · exact ⟨.failed .ENOMEM, (a, h'), by rw [array_call, hrun]; rfl, ha, .nomem trivial hrefused⟩
    · refine ⟨.done, (b, h'), by rw [array_call, hrun]; rfl, hb, ?_⟩
      rw [hlist]
      exact .preallocate (.inr hserved)
  | setguy index ptr =>
    obtain ⟨b, hrun, hb, hlist⟩ := array_setguy_spec (h := h) ha hmay ptr
    refine ⟨.done, (b, h), by rw [array_call, hrun]; rfl, hb, ?_⟩
    rw [hlist]
    exact .setguy (by rw [ha.length_toList]; exact hmay)
  | getguy index =>
    obtain ⟨ptr, hrun, hguy⟩ := array_getguy_spec (h := h) ha hmay
    exact ⟨.guy ptr, (a, h), by rw [array_call, hrun], ha, .getguy hguy⟩
  | getnum =>
    refine ⟨.num a.num, (a, h), rfl, ha, ?_⟩
    rw [← ha.length_toList]
    exact .getnum
  | remove index =>
    obtain ⟨b, hrun, hb, -, -, hlist⟩ := array_remove_spec (h := h) ha hmay
    refine ⟨.done, (b, h), by rw [array_call, hrun]; rfl, hb, ?_⟩
    rw [hlist]
    exact .remove (by rw [ha.length_toList]; exact hmay)

end Call

/-! ## Every sequence of calls -/

section Sequences

variable {α : Type} {h₀ h h' : Blocks α} {a b : SlotArray α}

theorem array_create_spec (ha : array_create h₀ = .ok (.ok (some a), h)) : a.Wf ∧ a.toList = [] := by
  rcases kmalloc_cases 12 h₀ with ⟨_, -, hk⟩ | ⟨_, _, -, hk, -⟩
  · rw [array_create, bind_ok hk] at ha
    cases ha
  · rw [array_create, bind_ok hk] at ha
    cases ha
    exact ⟨⟨Nat.le_refl 0, rfl, Nat.two_pow_pos 30, rfl⟩, rfl⟩

/-- After `array_create`, every sequence of calls is answered as a list of pointers answers it, whatever `kmalloc`
returns. -/
theorem array_is_list (ha : array_create h₀ = .ok (.ok (some a), h)) (calls : List (ArrayCall α))
    (hl : Legal array_call May calls (a, h)) :
    ∃ answers b h', run array_call calls (a, h) = some (answers, b, h') ∧
      Trace AsList ([], h) calls answers (b.toList, h') ∧ b.num ≤ b.max ∧ (b.v.getD []).length = b.max := by
  obtain ⟨hwf, hempty⟩ := array_create_spec ha
  obtain ⟨answers, ⟨b, h'⟩, hrun, hb, htrace⟩ :=
    run_trace (fun s => s.1.Wf) (fun s => (s.1.toList, s.2)) array_call_asList calls hwf hl
  rw [hempty] at htrace
  exact ⟨answers, b, h', hrun, htrace, hb.num_le, hb.slots⟩

end Sequences

theorem array_is_list_run :
    array_create [some fun _ => 0, some fun i => i, none, none] =
      .ok (.ok (some ⟨0, 0, none⟩), [some fun i => i, none, none]) ∧
    ∃ answers b h', run array_call [.add 5, .add 6, .add 7, .remove 0, .setsize 2, .getguy 1, .setsize 3]
        (⟨0, 0, none⟩, [some fun i => i, none, none]) = some (answers, b, h') ∧
      Trace AsList ([], [some fun i => i, none, none])
        [.add 5, .add 6, .add 7, .remove 0, .setsize 2, .getguy 1, .setsize 3] answers (b.toList, h') ∧
      b.num ≤ b.max ∧ (b.v.getD []).length = b.max := by
  have ha : array_create [some fun _ => 0, some fun i => i, none, none] =
      .ok (.ok (some ⟨0, 0, none⟩), [some fun i => i, none, none]) := rfl
  exact ⟨ha, array_is_list ha _ (by decide)⟩

/-! ## What `array_preallocate` promises -/

section Promise

variable {α : Type}

def Within (n : Nat) (s : SlotArray α × Blocks α) : ArrayCall α → Prop
  | .add _ => s.1.num + 1 ≤ n
  | .setsize nguys => nguys ≤ n ∧ (nguys = 0 → s.1.max ≤ 16)
  | .remove index => index < s.1.num
  | _ => False

instance decidableWithin (n : Nat) (s : SlotArray α × Blocks α) : (c : ArrayCall α) → Decidable (Within n s c)
  | .add _ => inferInstanceAs (Decidable (s.1.num + 1 ≤ n))
  | .setsize nguys => inferInstanceAs (Decidable (nguys ≤ n ∧ (nguys = 0 → s.1.max ≤ 16)))
  | .remove index => inferInstanceAs (Decidable (index < s.1.num))
  | .preallocate _ | .setguy _ _ | .getguy _ | .getnum => isFalse id

def Free (h : Blocks α) (_ : ArrayCall α) (r : ArrayAnswer α) (h' : Blocks α) : Prop := r = .done ∧ h' = h

theorem array_call_free {n : Nat} (c : ArrayCall α) (s : SlotArray α × Blocks α) (hs : s.1.Wf ∧ n ≤ s.1.max)
    (hmay : Within n s c) :
    ∃ r t, array_call c s = some (r, t) ∧ (t.1.Wf ∧ n ≤ t.1.max) ∧ Free s.2 c r t.2 := by
  obtain ⟨a, h⟩ := s
  obtain ⟨ha, hn⟩ : a.Wf ∧ n ≤ a.max := hs
  cases c with
  | add guy =>
    have hsize : a.num + 1 ≤ n := hmay
    obtain ⟨r, h', hrun, hpost⟩ := (array_add_spec (h := h) ha (fun hfull => by omega) guy).exists
    rcases hpost with ⟨-, -, hfull⟩ | ⟨b, rfl, hmem, hb, -, -, hmax⟩
    · omega
    · rcases hmem with ⟨rfl, -⟩ | ⟨-, hfull⟩
      · exact ⟨.done, (b, h'), by rw [array_call, hrun]; rfl, ⟨hb, by show n ≤ b.max; omega⟩, rfl, rfl⟩
      · omega
  | setsize nguys =>
    obtain ⟨hsize, hzero⟩ : nguys ≤ n ∧ (nguys = 0 → a.max ≤ 16) := hmay
    obtain ⟨r, h', hrun, hpost⟩ := (array_setsize_spec (h := h) ha (fun hgrow : a.max < nguys => by omega)).exists
    rcases hpost with ⟨-, -, hgrow⟩ | ⟨b, ext, rfl, hmem, hb, -, -, hkeep, hmax⟩
    · omega
    · have hbn : n ≤ b.max := by
        by_cases h0 : nguys = 0
        · rw [hkeep h0 (hzero h0)]
          exact hn
        · exact Nat.le_trans hn (hmax h0)
      rcases hmem with ⟨rfl, -⟩ | ⟨-, hgrow⟩
      · exact ⟨.done, (b, h'), by rw [array_call, hrun]; rfl, ⟨hb, hbn⟩, rfl, rfl⟩
      · omega
  | remove index =>
    obtain ⟨b, hrun, hb, -, hmax, -⟩ := array_remove_spec (h := h) ha hmay
    exact ⟨.done, (b, h), by rw [array_call, hrun]; rfl, ⟨hb, by show n ≤ b.max; omega⟩, rfl, rfl⟩
  | preallocate nguys => exact hmay.elim
  | setguy index ptr => exact hmay.elim
  | getguy index => exact hmay.elim
  | getnum => exact hmay.elim

/-- Once `array_preallocate(a, n)` has succeeded, the calls that keep the size at most `n` succeed without memory, except
where `array_setsize(a, 0)` gives back a block of more than 16 slots. -/
theorem array_preallocate_lasts {a b : SlotArray α} {h h' : Blocks α} {n : Nat} (ha : a.Wf) (hn : n < 2 ^ 29)
    (hb : array_preallocate a n h = .ok (.ok b, h')) (calls : List (ArrayCall α))
    (hl : Legal array_call (Within n) calls (b, h')) :
    ∃ c, run array_call calls (b, h') = some (calls.map fun _ => .done, c, h') := by
  have hpost := (array_preallocate_spec ha (.inl hn)).post hb
  rcases hpost with ⟨hr, -⟩ | ⟨_, ⟨⟩, -, hwf, -, -, hroom, -⟩
  · cases hr
  obtain ⟨answers, ⟨c, h''⟩, hrun, -, htrace⟩ :=
    run_trace (fun s => s.1.Wf ∧ n ≤ s.1.max) Prod.snd array_call_free calls ⟨hwf, hroom⟩ hl
  obtain ⟨hanswers, hsame⟩ := htrace.const fun _ _ _ _ hfree => hfree
  change h'' = h' at hsame
  subst hanswers hsame
  exact ⟨c, hrun⟩

end Promise

theorem array_preallocate_lasts_ten :
    ∃ b, array_preallocate (⟨0, 0, none⟩ : SlotArray Nat) 10 [some fun i => i] = .ok (.ok b, []) ∧
      ∃ c, run array_call [.add 1, .add 2, .remove 0, .setsize 10, .setsize 0, .add 3] (b, []) =
        some ([.done, .done, .done, .done, .done, .done], c, []) := by
  have ha : (⟨0, 0, none⟩ : SlotArray Nat).Wf := ⟨Nat.le_refl 0, rfl, Nat.two_pow_pos 30, rfl⟩
  have hb : array_preallocate (⟨0, 0, none⟩ : SlotArray Nat) 10 [some fun i => i] =
      .ok (.ok ⟨0, 14, some (List.range 14)⟩, []) := rfl
  exact ⟨_, hb, array_preallocate_lasts ha (by decide) hb _ (by decide)⟩

/-- Room for 17, then `array_setsize(a, 0)` and one `array_add`: the block of 30 slots is gone, and without memory the
`array_add` fails. -/
theorem array_preallocate_forgotten :
    ∃ b, array_preallocate (⟨0, 0, none⟩ : SlotArray Nat) 17 [some fun i => i, none] = .ok (.ok b, [none]) ∧
      ∃ c, run array_call [.setsize 0, .add 3] (b, [none]) = some ([.done, .failed .ENOMEM], c, []) :=
  ⟨_, rfl, _, rfl⟩

end Os161.Slots
