import Os161.Vfs.Devices

/-! # Names of devices and volumes

When all names differ, a name stands for one device, whatever the order of the table.
-/

namespace Os161

open Prog

def Knowndev.names (kd : Knowndev) : List CStr := kd.kd_name :: (kd.kd_rawname.toList ++ kd.volname.toList)

structure Unambiguous (devs : List Knowndev) : Prop where
  across : ∀ (i j : Nat) (a b : Knowndev), devs[i]? = some a → devs[j]? = some b → i ≠ j → ∀ x ∈ a.names, x ∉ b.names
  within : ∀ kd ∈ devs, ∀ r, kd.kd_rawname = some r → r ≠ kd.kd_name ∧ kd.volname ≠ some r

/-! ## Looking a name up -/

theorem mem_names_of_getroot {n : CStr} {kd : Knowndev} (h : vfs_getroot_at n kd ≠ none) : n ∈ kd.names := by
  unfold Knowndev.names Knowndev.volname
  unfold vfs_getroot_at at h
  cases hfs : kd.kd_fs with
  | none =>
    simp only [hfs] at h
    by_cases h1 : kd.kd_name = n
    · simp [h1]
    · by_cases h2 : kd.kd_rawname = some n
      · simp [h2]
      · simp [h1, h2] at h
  | some fs =>
    simp only [hfs] at h
    by_cases h1 : kd.kd_name = n
    · simp [h1]
    · by_cases h2 : fs.volname = some n
      · simp [h2]
      · by_cases h3 : kd.kd_rawname = some n
        · simp [h3]
        · simp [h1, h2, h3] at h

theorem findSome?_perm {α β : Type} {f : α → Option β} {l l' : List α} (hl : l.Perm l')
    (hone : l.Pairwise fun a b => f a = none ∨ f b = none) : l.findSome? f = l'.findSome? f := by
  induction hl with
  | nil => rfl
  | cons a _ ih =>
    rw [List.findSome?_cons, List.findSome?_cons, ih (List.pairwise_cons.mp hone).2]
  | swap a b l =>
    have hab := (List.pairwise_cons.mp hone).1 a List.mem_cons_self
    simp only [List.findSome?_cons]
    cases hb : f b with
    | none => rfl
    | some x => rw [hb] at hab; rw [hab.resolve_left nofun]
  | trans h₁ _ ih₁ ih₂ =>
    exact (ih₁ hone).trans (ih₂ (h₁.pairwise hone fun h => h.symm))

theorem Unambiguous.getroot_perm {devs kds : List Knowndev} (h : Unambiguous devs) (hp : kds.Perm devs) (n : CStr) :
    vfs_getroot kds n = vfs_getroot devs n := by
  unfold vfs_getroot
  rw [findSome?_perm hp.symm]
  rw [List.pairwise_iff_getElem]
  intro i j hi hj hij
  by_contra hne
  rw [not_or] at hne
  exact h.across i j _ _ (List.getElem?_eq_getElem hi) (List.getElem?_eq_getElem hj) (by omega) n
    (mem_names_of_getroot hne.1) (mem_names_of_getroot hne.2)

/-! ## The names that the calls check -/

theorem samestring_eq_false {a b : Option CStr} : samestring a b = false ↔ ∀ x, a = some x → b ≠ some x := by
  unfold samestring
  split
  · rename_i a b
    simp only [decide_eq_false_iff_not, ne_eq, Option.some.injEq]
    constructor
    · rintro hne x rfl heq; exact hne heq.symm
    · intro h heq; exact h a rfl heq.symm
  · rename_i hnot
    simp only [true_iff]
    rintro x rfl rfl
    exact hnot x x rfl rfl

theorem badnames_eq_false {devs : List Knowndev} {n1 n2 n3 : Option CStr} :
    badnames devs n1 n2 n3 = false ↔ ∀ kd ∈ devs, ∀ x ∈ kd.names, n1 ≠ some x ∧ n2 ≠ some x ∧ n3 ≠ some x := by
  unfold badnames
  rw [List.any_eq_false]
  refine forall₂_congr fun kd _ => ?_
  simp only [badname, samestring3, Bool.or_eq_true, not_or, Bool.not_eq_true, samestring_eq_false, Knowndev.names,
    List.mem_cons, List.mem_append, Option.mem_toList]
  constructor
  · rintro ⟨⟨⟨⟨h1, h2⟩, h3⟩, ⟨h4, h5⟩, h6⟩, ⟨h7, h8⟩, h9⟩ x (rfl | hx | hx)
    · exact ⟨h7 _ rfl, h8 _ rfl, h9 _ rfl⟩
    · exact ⟨h4 x hx, h5 x hx, h6 x hx⟩
    · exact ⟨h1 x hx, h2 x hx, h3 x hx⟩
  · intro h
    refine ⟨⟨⟨⟨?_, ?_⟩, ?_⟩, ⟨?_, ?_⟩, ?_⟩, ⟨?_, ?_⟩, ?_⟩ <;> intro x hx
    · exact (h x (.inr (.inr hx))).1
    · exact (h x (.inr (.inr hx))).2.1
    · exact (h x (.inr (.inr hx))).2.2
    · exact (h x (.inr (.inl hx))).1
    · exact (h x (.inr (.inl hx))).2.1
    · exact (h x (.inr (.inl hx))).2.2
    · exact (h x (.inl (Option.some.inj hx).symm)).1
    · exact (h x (.inl (Option.some.inj hx).symm)).2.1
    · exact (h x (.inl (Option.some.inj hx).symm)).2.2

section Lists

variable {α : Type} {l : List α} {x a : α} {i j : Nat}

theorem getElem?_snoc (h : (l ++ [x])[j]? = some a) : l[j]? = some a ∨ j = l.length ∧ a = x := by
  rw [List.getElem?_append] at h
  split at h
  · exact .inl h
  · rcases Nat.eq_zero_or_pos (j - l.length) with h0 | hpos
    · rw [h0] at h
      exact .inr ⟨by omega, (Option.some.inj h).symm⟩
    · rw [List.getElem?_eq_none (by simp; omega)] at h
      cases h

theorem getElem?_set_cases (h : (l.set i x)[j]? = some a) : j ≠ i ∧ l[j]? = some a ∨ j = i ∧ a = x := by
  rw [List.getElem?_set] at h
  split at h
  · rename_i heq
    split at h
    · exact .inr ⟨heq.symm, (Option.some.inj h).symm⟩
    · cases h
  · rename_i hne
    exact .inl ⟨Ne.symm hne, h⟩

end Lists

theorem Unambiguous.add {devs : List Knowndev} {kd : Knowndev} (h : Unambiguous devs)
    (hbad : badnames devs (some kd.kd_name) kd.kd_rawname kd.volname = false)
    (hraw : ∀ r, kd.kd_rawname = some r → r ≠ kd.kd_name ∧ kd.volname ≠ some r) : Unambiguous (devs ++ [kd]) := by
  rw [badnames_eq_false] at hbad
  have hnew : ∀ a ∈ devs, ∀ x ∈ a.names, x ∉ kd.names := by
    intro a ha x hx hmem
    obtain ⟨h1, h2, h3⟩ := hbad a ha x hx
    simp only [Knowndev.names, List.mem_cons, List.mem_append, Option.mem_toList] at hmem
    rcases hmem with rfl | hm | hm
    · exact h1 rfl
    · exact h2 hm
    · exact h3 hm
  constructor
  · intro i j a b hi hj hij x hx hmem
    rcases getElem?_snoc hi with hi' | ⟨rfl, rfl⟩ <;> rcases getElem?_snoc hj with hj' | ⟨rfl, rfl⟩
    · exact h.across i j a b hi' hj' hij x hx hmem
    · exact hnew a (List.mem_of_getElem? hi') x hx hmem
    · exact hnew b (List.mem_of_getElem? hj') x hmem hx
    · exact hij rfl
  · intro a ha
    rcases List.mem_append.mp ha with ha | ha
    · exact h.within a ha
    · rw [List.mem_singleton.mp ha]
      exact hraw

theorem Unambiguous.set {devs : List Knowndev} {kd kd' : Knowndev} {i : Nat} (h : Unambiguous devs)
    (hi : devs[i]? = some kd) (hnew : ∀ x ∈ kd'.names, x ∈ kd.names ∨ ∀ a ∈ devs, x ∉ a.names)
    (hraw : ∀ r, kd'.kd_rawname = some r → r ≠ kd'.kd_name ∧ kd'.volname ≠ some r) : Unambiguous (devs.set i kd') := by
  have hother : ∀ {j a}, j ≠ i → devs[j]? = some a → ∀ x ∈ kd'.names, x ∉ a.names := by
    intro j a hne hj x hx
    rcases hnew x hx with hx | hx
    · exact h.across i j kd a hi hj (Ne.symm hne) x hx
    · exact hx a (List.mem_of_getElem? hj)
  constructor
  · intro j l a b hj hl hne x hx hmem
    rcases getElem?_set_cases hj with ⟨hji, hj'⟩ | ⟨rfl, rfl⟩ <;>
      rcases getElem?_set_cases hl with ⟨hli, hl'⟩ | ⟨rfl, rfl⟩
    · exact h.across j l a b hj' hl' hne x hx hmem
    · exact hother hji hj' x hmem hx
    · exact hother hli hl' x hx hmem
    · exact hne rfl
  · intro a ha
    rcases List.mem_or_eq_of_mem_set ha with ha | rfl
    · exact h.within a ha
    · exact hraw

/-! ## Every run -/

def VfsOp.Fresh (s : Vfs) : VfsOp → Prop
  | .mount n f => ∀ v ∈ vfs_mount_volname s n f, v = n ∨ badnames s.devs (some v) none none = false
  | _ => True

instance (s : Vfs) (op : VfsOp) : Decidable (op.Fresh s) := by
  cases op <;> unfold VfsOp.Fresh <;> infer_instance

def MountsAgree (devs : List Knowndev) (tr : List VfsEvent) : Prop :=
  (∀ kd ∈ devs, kd.kd_rawname ≠ none →
    tr.count (.mounted kd.kd_name) = tr.count (.unmounted kd.kd_name) + if kd.kd_fs = none then 0 else 1) ∧
  ∀ n, (∀ kd ∈ devs, kd.kd_rawname ≠ none → kd.kd_name ≠ n) →
    tr.count (.mounted n) = 0 ∧ tr.count (.unmounted n) = 0

def entriesOf (d : Nat) (devs : List Knowndev) : Nat := (devs.map Knowndev.kd_device).count (some d)

structure VfsInv (s : Vfs) (tr : List VfsEvent) : Prop where
  names : Unambiguous s.devs
  mounts : MountsAgree s.devs tr
  added : ∀ d, entriesOf d s.devs = tr.count (.added d)

theorem mkrawname_ne (n : CStr) : mkrawname n ≠ n := by
  intro h
  have := congrArg (fun x : CStr => x.chars.length) h
  simp [mkrawname, rawsuffix] at this

section Steps

variable {devs : List Knowndev} {kd kd' : Knowndev} {tr es : List VfsEvent} {i : Nat}

theorem MountsAgree.add (h : MountsAgree devs tr) (hnew : ∀ a ∈ devs, a.kd_name ≠ kd.kd_name)
    (hfs : kd.kd_rawname ≠ none → kd.kd_fs = none)
    (hes : ∀ n, es.count (.mounted n) = 0 ∧ es.count (.unmounted n) = 0) : MountsAgree (devs ++ [kd]) (es ++ tr) := by
  have hcount : ∀ n, (es ++ tr).count (.mounted n) = tr.count (.mounted n) ∧
      (es ++ tr).count (.unmounted n) = tr.count (.unmounted n) := by
    intro n
    rw [List.count_append, List.count_append, (hes n).1, (hes n).2, Nat.zero_add, Nat.zero_add]
    exact ⟨rfl, rfl⟩
  constructor
  · intro a ha hraw
    rw [(hcount _).1, (hcount _).2]
    rcases List.mem_append.mp ha with ha | ha
    · exact h.1 a ha hraw
    · obtain rfl := List.mem_singleton.mp ha
      obtain ⟨h1, h2⟩ := h.2 a.kd_name fun b hb _ => hnew b hb
      rw [h1, h2, hfs hraw]
      rfl
  · intro n hn
    rw [(hcount _).1, (hcount _).2]
    exact h.2 n fun a ha => hn a (List.mem_append_left _ ha)

theorem MountsAgree.set (h : MountsAgree devs tr) (hu : Unambiguous devs) (hi : devs[i]? = some kd)
    (hraw : kd.kd_rawname ≠ none) (hname : kd'.kd_name = kd.kd_name) (hraw' : kd'.kd_rawname = kd.kd_rawname)
    (hself : (es ++ tr).count (.mounted kd.kd_name) =
      (es ++ tr).count (.unmounted kd.kd_name) + if kd'.kd_fs = none then 0 else 1)
    (hes : ∀ n, n ≠ kd.kd_name → es.count (.mounted n) = 0 ∧ es.count (.unmounted n) = 0) :
    MountsAgree (devs.set i kd') (es ++ tr) := by
  have hcount : ∀ n, n ≠ kd.kd_name → (es ++ tr).count (.mounted n) = tr.count (.mounted n) ∧
      (es ++ tr).count (.unmounted n) = tr.count (.unmounted n) := by
    intro n hn
    rw [List.count_append, List.count_append, (hes n hn).1, (hes n hn).2, Nat.zero_add, Nat.zero_add]
    exact ⟨rfl, rfl⟩
  constructor
  · intro a ha ha'
    obtain ⟨j, hj⟩ := List.mem_iff_getElem?.mp ha
    rcases getElem?_set_cases hj with ⟨hji, hj⟩ | ⟨-, rfl⟩
    · -- another device has another name
      have hne : a.kd_name ≠ kd.kd_name := fun heq =>
        hu.across j i a kd hj hi hji a.kd_name List.mem_cons_self (by rw [heq]; exact List.mem_cons_self)
      rw [(hcount _ hne).1, (hcount _ hne).2]
      exact h.1 a (List.mem_of_getElem? hj) ha'
    · rw [hname]
      exact hself
  · intro n hn
    have hmem : kd' ∈ devs.set i kd' := List.mem_set (List.getElem?_eq_some_iff.mp hi).1 kd'
    have hne : n ≠ kd.kd_name := fun heq => hn kd' hmem (hraw' ▸ hraw) (hname.trans heq.symm)
    rw [(hcount n hne).1, (hcount n hne).2]
    refine h.2 n fun a ha ha' heq => ?_
    obtain ⟨j, hj⟩ := List.mem_iff_getElem?.mp ha
    by_cases hji : j = i
    · subst hji
      obtain rfl := Option.some.inj (hj.symm.trans hi)
      exact hne heq.symm
    · refine hn a (List.mem_iff_getElem?.mpr ⟨j, ?_⟩) ha' heq
      rw [List.getElem?_set_ne (Ne.symm hji)]
      exact hj

theorem entriesOf_set {d : Nat} (hi : devs[i]? = some kd) (fs : Option Fs) :
    entriesOf d (devs.set i { kd with kd_fs := fs }) = entriesOf d devs := by
  obtain ⟨hlt, rfl⟩ := List.getElem?_eq_some_iff.mp hi
  rw [entriesOf, entriesOf, List.map_set]
  congr 1
  apply List.ext_getElem?
  intro j
  rw [List.getElem?_set]
  split
  · rename_i heq
    subst heq
    rw [if_pos (by simpa using hlt), List.getElem?_map, List.getElem?_eq_getElem hlt]
    rfl
  · rfl

theorem moves_vfsInv {s t : Vfs} {op : VfsOp} (h : VfsInv s tr) (hfresh : op.Fresh s) (hm : VfsMoves s op t es) :
    VfsInv t (es ++ tr) := by
  cases hm with
  | stay hdevs => exact ⟨hdevs ▸ h.names, hdevs ▸ h.mounts, hdevs ▸ h.added⟩
  | @adddev n dev vnode mountable t hdevs hbad =>
    have hnew : ∀ a ∈ s.devs, a.kd_name ≠ n := fun a ha heq =>
      (badnames_eq_false.mp hbad a ha n (by rw [← heq]; exact List.mem_cons_self)).1 rfl
    refine ⟨hdevs ▸ h.names.add hbad ?_, hdevs ▸ h.mounts.add hnew (fun _ => rfl) fun n => ⟨rfl, rfl⟩, fun d => ?_⟩
    · intro r hr
      cases mountable with
      | false => cases hr
      | true => cases hr; exact ⟨mkrawname_ne n, nofun⟩
    · rw [hdevs, entriesOf, List.map_append, List.count_append, List.count_append, ← h.added d, entriesOf, Nat.add_comm]
      by_cases hd : dev = d
      · subst hd; simp
      · simp [hd]
  | @addfs n fs vnode t hdevs hbad =>
    have hnew : ∀ a ∈ s.devs, a.kd_name ≠ n := fun a ha heq =>
      (badnames_eq_false.mp hbad a ha n (by rw [← heq]; exact List.mem_cons_self)).1 rfl
    refine ⟨hdevs ▸ h.names.add hbad nofun, hdevs ▸ h.mounts.add hnew (fun hr => absurd rfl hr) fun n => ⟨rfl, rfl⟩,
      fun d => ?_⟩
    rw [hdevs, entriesOf, List.map_append, List.count_append, ← entriesOf, h.added d]
    simp
  | @mount n f i kd fs t hi hraw hname hfs hvol hdevs =>
    subst hname
    have hcount := h.mounts.1 kd (List.mem_of_getElem? hi) hraw
    rw [hfs, if_pos rfl, Nat.add_zero] at hcount
    have hnames : ∀ x ∈ ({ kd with kd_fs := some fs } : Knowndev).names,
        x ∈ kd.names ∨ ∀ a ∈ s.devs, x ∉ a.names := by
      intro x hx
      simp only [Knowndev.names, List.mem_cons, List.mem_append, Option.mem_toList] at hx ⊢
      rcases hx with hx | hx | hx
      · exact .inl (.inl hx)
      · exact .inl (.inr (.inl hx))
      · rcases hfresh x (by rw [hvol]; exact hx) with hx' | hx'
        · exact .inl (.inl hx')
        · exact .inr fun a ha hmem => (badnames_eq_false.mp hx' a ha x (by simpa [Knowndev.names] using hmem)).1 rfl
    refine ⟨hdevs ▸ h.names.set hi hnames ?_, hdevs ▸ h.mounts.set h.names hi hraw rfl rfl ?_ ?_, fun d => ?_⟩
    · intro r hr
      refine ⟨(h.names.within kd (List.mem_of_getElem? hi) r hr).1, fun hv => ?_⟩
      have hmem : r ∈ kd.names := by simp [Knowndev.names, show kd.kd_rawname = some r from hr]
      rcases hfresh r (by rw [hvol]; exact hv) with hx | hx
      · exact (h.names.within kd (List.mem_of_getElem? hi) r hr).1 hx
      · exact (badnames_eq_false.mp hx kd (List.mem_of_getElem? hi) r hmem).1 rfl
    · rw [List.count_append, List.count_append, hcount]
      simp [Nat.add_comm]
    · intro m hne
      exact ⟨List.count_eq_zero.mpr (by simpa using hne), rfl⟩
    · rw [hdevs, entriesOf_set hi _, List.count_append, h.added d]
      simp
  | @unmount n sync drop i kd t hi hraw hname hfs hdevs =>
    subst hname
    have hcount := h.mounts.1 kd (List.mem_of_getElem? hi) hraw
    rw [if_neg hfs] at hcount
    refine ⟨hdevs ▸ h.names.set hi ?_ ?_, hdevs ▸ h.mounts.set h.names hi hraw rfl rfl ?_ ?_, fun d => ?_⟩
    · intro x hx
      simp only [Knowndev.names, Knowndev.volname, List.mem_cons, List.mem_append, Option.mem_toList] at hx ⊢
      rcases hx with hx | hx | hx
      · exact .inl (.inl hx)
      · exact .inl (.inr (.inl hx))
      · cases hx
    · intro r hr
      exact ⟨(h.names.within kd (List.mem_of_getElem? hi) r hr).1, nofun⟩
    · rw [List.count_append, List.count_append, hcount]
      simp [Nat.add_comm]
    · intro m hne
      exact ⟨rfl, List.count_eq_zero.mpr (by simpa using hne)⟩
    · rw [hdevs, entriesOf_set hi _, List.count_append, h.added d]
      simp

end Steps

theorem reach_vfsInv {s : Vfs} {tr : List VfsEvent} (h : vfslist.Reach (fun s op => op.Fresh s) s tr) : VfsInv s tr := by
  refine Machine.Reach.invariant (I := VfsInv) ?_ ?_ h
  · rintro _ ⟨heap, rfl⟩
    exact ⟨⟨nofun, nofun⟩, ⟨nofun, fun _ _ => ⟨rfl, rfl⟩⟩, fun _ => rfl⟩
  · intro _ _ _ _ _ _ hi hok hs
    exact moves_vfsInv hi hok (vfslist_moves hs)

/-- Where mounts bring in volume names that are new, all names differ, the order of the table does not matter to a
lookup, and a device has one file system or none. -/
theorem names_unambiguous {s : Vfs} {tr : List VfsEvent} (h : vfslist.Reach (fun s op => op.Fresh s) s tr) :
    Unambiguous s.devs ∧
    (∀ kds n, kds.Perm s.devs → vfs_getroot kds n = vfs_getroot s.devs n) ∧
    (∀ kd ∈ s.devs, kd.kd_rawname ≠ none →
      tr.count (.mounted kd.kd_name) = tr.count (.unmounted kd.kd_name) + if kd.kd_fs = none then 0 else 1) ∧
    ∀ d, s.devs.countP (fun kd => kd.kd_device = some d ∧ kd.kd_fs ≠ none) ≤ tr.count (.added d) := by
  have hinv := reach_vfsInv h
  refine ⟨hinv.names, fun kds n hp => hinv.names.getroot_perm hp n, hinv.mounts.1, fun d => ?_⟩
  rw [← hinv.added d, entriesOf, List.count, List.countP_map]
  refine List.countP_mono_left fun kd _ hkd => ?_
  simp only [decide_eq_true_eq] at hkd
  simp [hkd.1]

def twoDisks (v : List Byte) : List VfsOp :=
  [.adddev (.ofBytes [0x61]) 0 true, .adddev (.ofBytes [0x62]) 1 true,
    .mount (.ofBytes [0x61]) fun _ => .ok ⟨0, some (.ofBytes v)⟩]

theorem names_unambiguous_two_disks :
    ∃ s : Vfs, s.devs.length = 2 ∧ vfs_getroot s.devs (.ofBytes [0x76]) = .ok (.ok (.fs ⟨0, some (.ofBytes [0x76])⟩)) ∧
      Unambiguous s.devs ∧ vfs_getroot s.devs.reverse (.ofBytes [0x76]) = vfs_getroot s.devs (.ofBytes [0x76]) := by
  obtain ⟨s, tr, hs, hc⟩ := Machine.exists_runOk (M := vfslist) (fun s op => op.Fresh s) (twoDisks [0x76])
    (fun x => x.1.devs.length == 2 &&
      decide (vfs_getroot x.1.devs (.ofBytes [0x76]) = .ok (.ok (.fs ⟨0, some (.ofBytes [0x76])⟩))))
    ⟨[], rfl⟩ (by decide +kernel)
  simp only [Bool.and_eq_true, beq_iff_eq, decide_eq_true_eq] at hc
  obtain ⟨hnames, hperm, -⟩ := names_unambiguous hs
  exact ⟨s, hc.1, hc.2, hnames, hperm _ _ (List.reverse_perm _)⟩

/-- A volume that is called as the second disk: which of the two the name reaches depends on the order in which they
were added. -/
theorem volume_takes_device_name :
    ∃ s tr, vfslist.Reach Machine.Any s tr ∧ ¬ Unambiguous s.devs ∧
      vfs_getroot s.devs (.ofBytes [0x62]) = .ok (.ok (.fs ⟨0, some (.ofBytes [0x62])⟩)) ∧
      vfs_getroot s.devs.reverse (.ofBytes [0x62]) = .ok (.error Errno.ENXIO) := by
  obtain ⟨s, tr, hs, hc⟩ := Machine.exists_runOk (M := vfslist) Machine.Any (twoDisks [0x62])
    (fun x => decide (vfs_getroot x.1.devs (.ofBytes [0x62]) = .ok (.ok (.fs ⟨0, some (.ofBytes [0x62])⟩))) &&
      decide (vfs_getroot x.1.devs.reverse (.ofBytes [0x62]) = .ok (.error Errno.ENXIO)))
    ⟨[], rfl⟩ (by decide +kernel)
  simp only [Bool.and_eq_true, decide_eq_true_eq] at hc
  refine ⟨s, tr, hs, fun hu => ?_, hc.1, hc.2⟩
  have := hu.getroot_perm (List.reverse_perm _) (.ofBytes [0x62])
  rw [hc.1, hc.2] at this
  cases this

end Os161
