import Mathlib.Data.List.Nodup
import Os161.Libc.Strtok

/-! # `menu.c`: command lines -/

namespace Os161.Menu

open Libc Runs

/-! ## The code -/

def chars (s : String) : List Byte := s.toList.map fun c => BitVec.ofNat 8 c.toNat

def MAXMENUARGS : Nat := 16

def EINVAL : Int := 1

def E2BIG : Int := 25

def blanks : List Byte := chars " \t"

def semicolon : List Byte := chars ";"

inductive CmdFunc where
  | cmd_mainmenu | cmd_opsmenu | cmd_testmenu
  | cmd_shell | cmd_prog | cmd_mount | cmd_unmount | cmd_bootfs | printfile | cmd_chdir | cmd_pwd | cmd_sync
  | cmd_panic | cmd_quit
  | catmouse | createcars
  | cmd_kheapstats
  | arraytest | bitmaptest | queuetest | malloctest | mallocstress | nettest
  | threadtest | threadtest2 | threadtest3 | semtest | locktest | cvtest
  | fstest | readstress | writestress | writestress2 | createstress
  deriving DecidableEq, Repr

structure Options where
  synchprobs : Bool
  net : Bool

def cmdtable (opt : Options) : List (List Byte × CmdFunc) :=
  List.flatten
    [[(chars "?", .cmd_mainmenu), (chars "h", .cmd_mainmenu), (chars "help", .cmd_mainmenu), (chars "?o", .cmd_opsmenu),
        (chars "?t", .cmd_testmenu),
        (chars "s", .cmd_shell), (chars "p", .cmd_prog), (chars "mount", .cmd_mount), (chars "unmount", .cmd_unmount),
        (chars "bootfs", .cmd_bootfs), (chars "pf", .printfile), (chars "cd", .cmd_chdir), (chars "pwd", .cmd_pwd),
        (chars "sync", .cmd_sync), (chars "panic", .cmd_panic), (chars "q", .cmd_quit), (chars "exit", .cmd_quit),
        (chars "halt", .cmd_quit)],
      if opt.synchprobs then [(chars "1a", .catmouse), (chars "1b", .createcars)] else [],
      [(chars "kh", .cmd_kheapstats),
        (chars "at", .arraytest), (chars "bt", .bitmaptest), (chars "qt", .queuetest), (chars "km1", .malloctest),
        (chars "km2", .mallocstress)],
      if opt.net then [(chars "net", .nettest)] else [],
      [(chars "tt1", .threadtest), (chars "tt2", .threadtest2), (chars "tt3", .threadtest3), (chars "sy1", .semtest),
        (chars "sy2", .locktest), (chars "sy3", .cvtest),
        (chars "fs1", .fstest), (chars "fs2", .readstress), (chars "fs3", .writestress), (chars "fs4", .writestress2),
        (chars "fs5", .createstress)]]

def WordsOnly (args : List Nat) (buf buf' : List Byte) : Prop :=
  buf'.length = buf.length ∧ ∀ i, (∀ a ∈ args, ¬ (a ≤ i ∧ i < a + (strAt buf a).length)) → buf'[i]? = buf[i]?

/-- A function of the table, over the line with its words and the rest `σ` of the machine. It may write into its
words, and may not return at all. -/
structure Func (σ : Type) where
  call : List Nat → List Byte → σ → Option Int × List Byte × σ
  words_only : ∀ args buf s, (∀ a ∈ args, strAt buf a ≠ []) → WordsOnly args buf (call args buf s).2.1

theorem WordsOnly.refl (args : List Nat) (buf : List Byte) : WordsOnly args buf buf := ⟨rfl, fun _ _ => rfl⟩

def Func.reads {σ : Type} (act : List (List Byte) → σ → Option Int × σ) : Func σ where
  call args line s := ((act (args.map (strAt line)) s).1, line, (act (args.map (strAt line)) s).2)
  words_only args line _ _ := .refl args line

def drop_colon (line : List Byte) (device : Nat) : List Byte :=
  let last := device + (strAt line device).length - 1
  if [line.getD last 0] = chars ":" then line.set last 0 else line

theorem drop_colon_words_only {args : List Nat} {line : List Byte} {device : Nat} (hd : device ∈ args)
    (hne : strAt line device ≠ []) : WordsOnly args line (drop_colon line device) := by
  have hpos := List.length_pos_iff.2 hne
  rw [drop_colon]
  split
  · refine ⟨List.length_set, fun i hi => ?_⟩
    have := hi device hd
    rw [List.getElem?_set_ne (by omega)]
  · exact .refl args line

/-- `cmd_mount`, `cmd_unmount`, `cmd_bootfs` and the file system tests: the last word is a device. -/
def Func.device {σ : Type} (nargs : Nat) (act : List (List Byte) → σ → Option Int × σ) : Func σ where
  call args line s :=
    if args.length ≠ nargs then (some EINVAL, line, s)
    else
      let line := args.getLast?.elim line (drop_colon line)
      ((act (args.map (strAt line)) s).1, line, (act (args.map (strAt line)) s).2)
  words_only := by
    intro args line s hne
    split
    · exact .refl args line
    cases hlast : args.getLast? with
    | none => exact .refl args line
    | some device =>
      have hd := List.mem_of_getLast? hlast
      exact drop_colon_words_only hd (hne device hd)

/-- What happens, in order: the calls of `cmd_dispatch`, the calls of functions of the table with their words and result,
and the messages. -/
inductive Event where
  | dispatch (command : List Byte)
  | invoke (func : CmdFunc) (words : List (List Byte)) (result : Option Int)
  | too_many_words
  | not_found (word : List Byte)
  | failed (result : Int)
  deriving DecidableEq, Repr

structure State (σ : Type) where
  line : List Byte
  machine : σ
  events : List Event

/-- The loop over the words of a command, with the number of slots of `args` that are left, `MAXMENUARGS - nargs`.
True if there are too many words. -/
def cmd_words : Nat → Option Nat → Option Nat → List Byte → List Nat → Bool × List Nat × List Byte
  | _, none, _, line, args => (false, args, line)
  | 0, some _, _, line, args => (true, args, line)
  | free + 1, some word, context, line, args =>
    let next := strtok_r line none blanks context
    cmd_words free next.1 next.2.1 next.2.2 (args ++ [word])

section Code

variable {σ : Type} (opt : Options) (funcs : CmdFunc → Func σ)

def State.emit (m : State σ) (e : Event) : State σ := { m with events := m.events ++ [e] }

def cmd_call (args : List Nat) (m : State σ) : Option Int × State σ :=
  match args with
  | [] => (some 0, m)
  | arg :: _ =>
    match (cmdtable opt).find? fun e => e.1 ≠ [] ∧ strAt m.line arg = e.1 with
    | some e =>
      let r := (funcs e.2).call args m.line m.machine
      (r.1, ⟨r.2.1, r.2.2, m.events ++ [.invoke e.2 (args.map (strAt m.line)) r.1]⟩)
    | none => (some EINVAL, m.emit (.not_found (strAt m.line arg)))

def cmd_dispatch (cmd : Nat) (m : State σ) : Option Int × State σ :=
  let first := strtok_r m.line (some cmd) blanks none
  let r := cmd_words MAXMENUARGS first.1 first.2.1 first.2.2 []
  if r.1 then (some E2BIG, { m with line := r.2.2 }.emit .too_many_words)
  else cmd_call opt funcs r.2.1 { m with line := r.2.2 }

inductive Ending where
  | done | panic | no_return | fuel
  deriving DecidableEq, Repr

def menu_loop (isargs : Bool) : Nat → Option Nat → Option Nat → State σ → Ending × State σ
  | _, none, _, m => (.done, m)
  | 0, some _, _, m => (.fuel, m)
  | fuel + 1, some command, context, m =>
    match cmd_dispatch opt funcs command (m.emit (.dispatch (strAt m.line command))) with
    | (none, m) => (.no_return, m)
    | (some result, m) =>
      if result ≠ 0 ∧ isargs then (.panic, m.emit (.failed result))
      else
        let m := if result ≠ 0 then m.emit (.failed result) else m
        let next := strtok_r m.line none semicolon context
        menu_loop isargs fuel next.1 next.2.1 { m with line := next.2.2 }

def menu_execute (line : List Byte) (isargs : Bool) (machine : σ) : Ending × State σ :=
  let first := strtok_r line (some 0) semicolon none
  menu_loop opt funcs isargs (line.length + 1) first.1 first.2.1 ⟨first.2.2, machine, []⟩

end Code

/-! ## The words of a command -/

section Words

variable {A B P buf line : List Byte} {ws done : List (List Byte)} {word context : Option Nat}
  {args : List Nat}

theorem cmd_words_length (free : Nat) (word context : Option Nat) (line : List Byte) (args : List Nat) :
    (cmd_words free word context line args).2.1.length ≤ args.length + free := by
  induction free generalizing word context line args with
  | zero => cases word <;> rfl
  | succ free ih =>
    cases word with
    | none => exact Nat.le_add_right ..
    | some word =>
      have := ih (strtok_r line none blanks context).1 (strtok_r line none blanks context).2.1
        (strtok_r line none blanks context).2.2 (args ++ [word])
      rw [List.length_append, List.length_singleton] at this
      rw [cmd_words]
      omega

structure Between (B A line : List Byte) (args : List Nat) : Prop where
  start : B <+: line
  stop : A <:+ line
  args : ∀ a ∈ args, B.length ≤ a ∧ a + A.length ≤ line.length

theorem Between.scanned (hin : Between B A buf args) (h : Scanned blanks A P buf ws (word, context, line))
    (hlen : line.length = buf.length) (hB : B <+: P) : Between B A line args := by
  obtain ⟨hstart, hstop⟩ := h.around hB hin.start hin.stop
  refine ⟨hstart, hstop, ?_⟩
  rw [hlen]
  exact hin.args

theorem Between.snoc (hin : Between B A line args) {s w X : List Byte} (hline : line = P ++ s ++ (w ++ X)) (hA : A <:+ X)
    (hB : B <+: P) : Between B A line (args ++ [(P ++ s).length]) := by
  refine ⟨hin.start, hin.stop, ?_⟩
  intro a ha
  rw [List.mem_append, List.mem_singleton] at ha
  rcases ha with ha | rfl
  · exact hin.args a ha
  · have := hB.length_le
    have := hA.length_le
    rw [hline]
    simp only [List.length_append]
    omega

/-- The induction is on the slots that are left; the strings at `args` are in `P`, where no later call writes. -/
theorem cmd_words_spec (free : Nat) (hA : Ended A) (h : Scanned blanks A P buf ws (word, context, line))
    (hlen : line.length = buf.length) (hP : ∀ l, args.map (strAt (P ++ l)) = done) (hbuf : args.map (strAt buf) = done)
    (hB : B <+: P) (hin : Between B A buf args) :
    ∃ args' line', cmd_words free word context line args = (decide (free < ws.length), args', line') ∧
      line'.length = line.length ∧ Between B A line' args' ∧ (ws.length ≤ free → args'.map (strAt line') = done ++ ws) := by
  induction free generalizing word context line args P buf ws done with
  | zero =>
    have hin' := hin.scanned h hlen hB
    rcases h with ⟨rfl, ⟨⟩⟩ | ⟨s, w, X, ws, rfl, -, ⟨⟩, -, -⟩
    · exact ⟨args, _, rfl, rfl, hin', fun _ => by rw [hbuf, List.append_nil]⟩
    · exact ⟨args, _, rfl, rfl, hin', fun hle => absurd hle (by simp)⟩
  | succ free ih =>
    have hin' := hin.scanned h hlen hB
    rcases h with ⟨rfl, ⟨⟩⟩ | ⟨s, w, X, ws, rfl, hw, ⟨⟩, hline, hleft⟩
    · exact ⟨args, _, rfl, rfl, hin', fun _ => by rw [hbuf, List.append_nil]⟩
    dsimp only at hline hleft
    have hQ : line = P ++ s ++ w ++ X := by rw [hline, List.append_assoc (P ++ s)]
    -- the strings so far, in any line that goes on with a NUL
    have hstrings : ∀ l, Ended l → (args ++ [(P ++ s).length]).map (strAt (P ++ s ++ w ++ l)) = done ++ [w] := by
      intro l hl
      have hold := hP (s ++ w ++ l)
      have hnew := strAt_append hw hl (P ++ s)
      rw [← List.append_assoc] at hnew
      rw [List.map_append, List.map_singleton, hnew, ← hold]
      simp
    have hnext := strtok_r_next hleft hA
    have hlen₁ := strtok_r_length line none blanks context
    rw [cmd_words]
    rw [← hQ] at hnext
    generalize strtok_r line none blanks context = next at hnext hlen₁ ⊢
    obtain ⟨word₁, context₁, line₁⟩ := next
    have hB' : B <+: P ++ s ++ w ++ [0] := by
      rw [List.append_assoc, List.append_assoc]
      exact hB.trans (List.prefix_append ..)
    obtain ⟨args', line', hrun, hlen', hbetween, hmap⟩ := ih hnext hlen₁
      (fun l => by rw [List.append_assoc]; exact hstrings _ (by rintro c ⟨⟩; rfl))
      (by rw [hQ]; exact hstrings X (hleft.ended hA)) hB' (hin'.snoc hline hleft.isSuffix hB)
    refine ⟨args', line', ?_, by rw [hlen', hlen₁], hbetween, fun hle => ?_⟩
    · rw [hrun]
      simp
    · rw [hmap (by simpa using hle)]
      simp

theorem strAt_length_le (hA : Ended A) {L : List Byte} {a : Nat} (ha : a ≤ L.length) :
    a + (strAt (L ++ A) a).length ≤ L.length := by
  have hnone : A.takeWhile (· ≠ 0) = [] := by
    cases A with
    | nil => rfl
    | cons c A => simp [hA c rfl]
  have hle : (strAt (L ++ A) a).length ≤ (L.drop a).length := by
    rw [strAt, List.drop_append_of_le_length ha, List.takeWhile_append, hnone, List.append_nil]
    split
    · exact Nat.le_refl _
    · exact (List.takeWhile_prefix _).length_le
  rw [List.length_drop] at hle
  omega

theorem WordsOnly.around {line' : List Byte} (h : WordsOnly args line line') (hA : Ended A) (hin : Between B A line args) :
    Between B A line' args := by
  obtain ⟨hlen, hsame⟩ := h
  obtain ⟨⟨t, ht⟩, ⟨L, rfl⟩, hargs⟩ := hin
  have hend : ∀ a ∈ args, a + (strAt (L ++ A) a).length ≤ L.length := by
    intro a ha
    have := (hargs a ha).2
    rw [List.length_append] at this
    exact strAt_length_le hA (by omega)
  refine ⟨?_, ?_, by rwa [hlen]⟩
  · rw [List.prefix_iff_getElem?]
    intro i hi
    rw [hsame i (fun a ha hai => by have := (hargs a ha).1; omega), ← ht, List.getElem?_append_left hi,
      List.getElem?_eq_getElem hi]
  · rw [List.suffix_iff_getElem?]
    rw [List.length_append] at hlen
    refine ⟨by omega, fun i hi => ?_⟩
    rw [hsame _ (fun a ha hai => by have := hend a ha; omega), List.getElem?_append_right (by omega),
      show i + line'.length - A.length - L.length = i by omega, List.getElem?_eq_getElem hi]

theorem Between.split {text : List Byte} (hin : Between B A line args) (hlen : line.length = (B ++ (text ++ A)).length) :
    ∃ text', line = B ++ (text' ++ A) ∧ text'.length = text.length := by
  obtain ⟨⟨t, rfl⟩, hstop, -⟩ := hin
  simp only [List.length_append] at hlen
  obtain ⟨text', rfl⟩ := List.suffix_of_suffix_length_le hstop (List.suffix_append B t) (by omega)
  rw [List.length_append] at hlen
  exact ⟨text', rfl, by omega⟩

end Words

/-! ## A command -/

inductive Served (opt : Options) (command : List Byte) : Option Int → List Event → Prop
  | blank : runs (· ∈ blanks) command = [] → Served opt command (some 0) []
  | too_many : MAXMENUARGS < (runs (· ∈ blanks) command).length → Served opt command (some E2BIG) [.too_many_words]
  | invoked {word : List Byte} {words : List (List Byte)} {func : CmdFunc} (result : Option Int) :
      runs (· ∈ blanks) command = word :: words → (word :: words).length ≤ MAXMENUARGS →
      (∀ f, (word, f) ∈ cmdtable opt ↔ f = func) → Served opt command result [.invoke func (word :: words) result]
  | unknown {word : List Byte} {words : List (List Byte)} :
      runs (· ∈ blanks) command = word :: words → (word :: words).length ≤ MAXMENUARGS →
      (∀ f, (word, f) ∉ cmdtable opt) → Served opt command (some EINVAL) [.not_found word]

theorem cmdtable_names (opt : Options) :
    ((cmdtable opt).map Prod.fst).Nodup ∧ ∀ e ∈ cmdtable opt, e.1 ≠ [] := by
  obtain ⟨synchprobs, net⟩ := opt
  revert synchprobs net
  decide +kernel

section Command

variable {σ : Type} {opt : Options} {B A text : List Byte}

theorem cmdtable_find {word : List Byte} {e : List Byte × CmdFunc}
    (h : (cmdtable opt).find? (fun e => e.1 ≠ [] ∧ word = e.1) = some e) (f : CmdFunc) :
    (word, f) ∈ cmdtable opt ↔ f = e.2 := by
  have hmem := List.mem_of_find?_eq_some h
  have hname : word = e.1 := by
    have := List.find?_some h
    simp only [decide_eq_true_eq] at this
    exact this.2
  constructor
  · intro hf
    have := List.inj_on_of_nodup_map (cmdtable_names opt).1 hf hmem hname
    rw [← this]
  · rintro rfl
    rwa [hname]

theorem cmdtable_find_none {word : List Byte} (h : (cmdtable opt).find? (fun e => e.1 ≠ [] ∧ word = e.1) = none)
    (f : CmdFunc) : (word, f) ∉ cmdtable opt := by
  intro hf
  have := List.find?_eq_none.1 h _ hf
  simp only [decide_eq_true_eq, and_true, not_not] at this
  exact (cmdtable_names opt).2 _ hf this

theorem cmd_call_spec (opt : Options) (funcs : CmdFunc → Func σ) (m : State σ) {args : List Nat} (hA : Ended A)
    (hin : Between B A m.line args) (hargs : args.map (strAt m.line) = runs (· ∈ blanks) text)
    (hle : (runs (· ∈ blanks) text).length ≤ MAXMENUARGS) :
    ∃ result line' s' es, cmd_call opt funcs args m = (result, ⟨line', s', m.events ++ es⟩) ∧
      line'.length = m.line.length ∧ Between B A line' args ∧ Served opt text result es := by
  cases args with
  | nil => exact ⟨_, _, _, [], by rw [List.append_nil]; rfl, rfl, hin, .blank hargs.symm⟩
  | cons arg args =>
    rw [cmd_call]
    cases hfind : (cmdtable opt).find? fun e => e.1 ≠ [] ∧ strAt m.line arg = e.1 with
    | none =>
      rw [← hargs] at hle
      exact ⟨_, _, _, _, rfl, rfl, hin, .unknown hargs.symm hle (cmdtable_find_none hfind)⟩
    | some e =>
      rw [← hargs] at hle
      have hne : ∀ a ∈ arg :: args, strAt m.line a ≠ [] := by
        intro a ha
        apply ne_nil_of_mem_runs
        rw [← hargs]
        exact List.mem_map_of_mem ha
      have honly := (funcs e.2).words_only (arg :: args) m.line m.machine hne
      exact ⟨_, _, _, _, rfl, honly.1, honly.around hA hin, .invoked _ hargs.symm hle (cmdtable_find hfind)⟩

theorem cmd_dispatch_spec (opt : Options) (funcs : CmdFunc → Func σ) {m : State σ} (hnul : ∀ c ∈ text, c ≠ 0)
    (hA : Ended A) (hline : m.line = B ++ (text ++ A)) :
    ∃ result text' s' es, cmd_dispatch opt funcs B.length m = (result, ⟨B ++ (text' ++ A), s', m.events ++ es⟩) ∧
      text'.length = text.length ∧ Served opt text result es := by
  have hfirst := strtok_r_first blanks hnul hA B none
  have hlen := strtok_r_length m.line (some B.length) blanks none
  rw [cmd_dispatch]
  rw [← hline] at hfirst
  generalize strtok_r m.line (some B.length) blanks none = first at hfirst hlen ⊢
  obtain ⟨word, context, line⟩ := first
  have hP : ∀ l, ([] : List Nat).map (strAt (B ++ l)) = [] := fun _ => rfl
  have hbuf : ([] : List Nat).map (strAt m.line) = [] := rfl
  have hin : Between B A m.line [] := by
    rw [hline]
    exact ⟨List.prefix_append .., by rw [← List.append_assoc]; exact List.suffix_append .., by simp⟩
  obtain ⟨args, line', hrun, hlen', hin', hmap⟩ :=
    cmd_words_spec MAXMENUARGS hA hfirst hlen hP hbuf (List.prefix_refl B) hin
  dsimp only
  rw [hrun]
  rw [hlen, hline] at hlen'
  by_cases hmany : MAXMENUARGS < (runs (· ∈ blanks) text).length
  · obtain ⟨text', rfl, hlen''⟩ := hin'.split hlen'
    exact ⟨_, text', _, _, by rw [if_pos (decide_eq_true hmany)]; rfl, hlen'', .too_many hmany⟩
  · rw [not_lt] at hmany
    obtain ⟨result, line'', s', es, hcall, hlen'', hin'', hserved⟩ :=
      cmd_call_spec opt funcs { m with line := line' } hA hin' (hmap hmany) hmany
    obtain ⟨text', rfl, hlen₃⟩ := hin''.split (hlen''.trans hlen')
    exact ⟨result, text', s', es, by rw [if_neg (by simpa using hmany)]; exact hcall, hlen₃, hserved⟩

end Command

/-! ## A line -/

def failure (result : Int) : List Event := if result ≠ 0 then [.failed result] else []

inductive Session (opt : Options) (isargs : Bool) : List (List Byte) → Ending → List Event → Prop
  | done : Session opt isargs [] .done []
  | next {command : List Byte} {commands : List (List Byte)} {result : Int} {es es' : List Event} {ending : Ending} :
      Served opt command (some result) es → (result = 0 ∨ isargs = false) → Session opt isargs commands ending es' →
      Session opt isargs (command :: commands) ending (.dispatch command :: es ++ failure result ++ es')
  | panic {command : List Byte} {commands : List (List Byte)} {result : Int} {es : List Event} :
      Served opt command (some result) es → result ≠ 0 → isargs = true →
      Session opt isargs (command :: commands) .panic (.dispatch command :: es ++ failure result)
  | no_return {command : List Byte} {commands : List (List Byte)} {es : List Event} :
      Served opt command none es → Session opt isargs (command :: commands) .no_return (.dispatch command :: es)

section Line

variable {σ : Type} (opt : Options) (funcs : CmdFunc → Func σ) {P buf : List Byte} {commands : List (List Byte)}
  {isargs : Bool} {fuel : Nat} {command context : Option Nat} {m : State σ}

/-- The induction is on the fuel: every round takes a command off. -/
theorem menu_loop_spec (h : Scanned semicolon [] P buf commands (command, context, m.line))
    (hfuel : commands.length ≤ fuel) :
    ∃ es, (menu_loop opt funcs isargs fuel command context m).2.events = m.events ++ es ∧
      Session opt isargs commands (menu_loop opt funcs isargs fuel command context m).1 es := by
  induction fuel generalizing command context m P buf commands with
  | zero =>
    obtain rfl : commands = [] := List.eq_nil_of_length_eq_zero (by omega)
    rcases h with ⟨-, ⟨⟩⟩ | ⟨s, w, X, ws, ⟨⟩, -⟩
    exact ⟨[], by rw [List.append_nil]; rfl, .done⟩
  | succ fuel ih =>
    rcases h with ⟨rfl, ⟨⟩⟩ | ⟨s, text, X, commands, rfl, hnul, ⟨⟩, hline, hleft⟩
    · exact ⟨[], by rw [List.append_nil]; rfl, .done⟩
    dsimp only at hline hleft
    have hX := hleft.ended ended_nil
    have htext : strAt m.line (P ++ s).length = text := by
      rw [hline]
      exact strAt_append hnul hX (P ++ s)
    obtain ⟨result, text', s', es, hrun, hlen, hserved⟩ :=
      cmd_dispatch_spec opt funcs hnul hX (show (m.emit (.dispatch text)).line = _ from hline)
    rw [menu_loop, htext, hrun]
    cases result with
    | none =>
      refine ⟨.dispatch text :: es, ?_, .no_return hserved⟩
      simp [State.emit]
    | some result =>
      dsimp only
      by_cases hpanic : result ≠ 0 ∧ isargs = true
      · rw [if_pos hpanic]
        refine ⟨.dispatch text :: es ++ failure result, ?_, .panic hserved hpanic.1 hpanic.2⟩
        simp [State.emit, failure, hpanic.1]
      rw [if_neg hpanic]
      -- the command was cut up in place, and the next one is behind it
      have hm : ∀ m : State σ, (if result ≠ 0 then m.emit (.failed result) else m) =
          ⟨m.line, m.machine, m.events ++ failure result⟩ := by
        intro m
        by_cases h0 : result = 0 <;> simp [h0, failure, State.emit]
      have hsame : (P ++ s ++ text).length = (P ++ s ++ text').length := by
        simp only [List.length_append, hlen]
      rw [hsame] at hleft
      have hnext := strtok_r_next hleft ended_nil
      rw [List.append_assoc (P ++ s) text' X] at hnext
      rw [hm]
      dsimp only
      generalize strtok_r (P ++ s ++ (text' ++ X)) none semicolon context = next at hnext ⊢
      obtain ⟨command₁, context₁, line₁⟩ := next
      obtain ⟨es', hevents, hsession⟩ := ih (m := ⟨line₁, s', (m.emit (.dispatch text)).events ++ es ++ failure result⟩)
        hnext (by simpa using hfuel)
      refine ⟨.dispatch text :: es ++ failure result ++ es', ?_, .next hserved ?_ hsession⟩
      · rw [hevents]
        simp [State.emit]
      · by_cases h0 : result = 0
        · exact .inl h0
        · exact .inr (by simpa [h0] using hpanic)

theorem menu_execute_session {line : List Byte} (hline : ∀ c ∈ line, c ≠ 0) (machine : σ) :
    Session opt isargs (runs (· ∈ semicolon) line) (menu_execute opt funcs line isargs machine).1
      (menu_execute opt funcs line isargs machine).2.events := by
  have hfirst := strtok_r_first semicolon hline ended_nil [] none
  rw [List.append_nil, List.nil_append, List.length_nil] at hfirst
  rw [menu_execute]
  generalize strtok_r line (some 0) semicolon none = first at hfirst ⊢
  obtain ⟨command, context, line₁⟩ := first
  obtain ⟨es, hevents, hsession⟩ := menu_loop_spec opt funcs (m := ⟨line₁, machine, []⟩) hfirst (runs_length_le _ line)
  dsimp only
  rw [hevents]
  exact hsession

/-- A command line is executed command by command, and a command word by word, up to the end, a function that does not
return or, with `isargs`, a failure. -/
theorem menu_execute_parses (isargs : Bool) (line : List Byte) (hline : ∀ c ∈ line, c ≠ 0) (machine : σ) :
    Session opt isargs (runs (· ∈ semicolon) line) (menu_execute opt funcs line isargs machine).1
        (menu_execute opt funcs line isargs machine).2.events ∧
      ∀ word context buf, (cmd_words MAXMENUARGS word context buf []).2.1.length ≤ MAXMENUARGS := by
  refine ⟨menu_execute_session opt funcs hline machine, ?_⟩
  intro word context buf
  simpa using cmd_words_length MAXMENUARGS word context buf []

end Line

def sampleFuncs (func : CmdFunc) : Func Unit :=
  if func = .cmd_quit then .reads fun _ s => (none, s)
  else if func = .cmd_mount then .device 3 fun _ s => (some 0, s)
  else .reads fun _ s => (some 0, s)

def sampleLine : List Byte := chars ";mount\tsfs  lhd0:; ;nosuch lhd0;q"

theorem menu_execute_parses_line :
    Session ⟨false, false⟩ false (runs (· ∈ semicolon) sampleLine) .no_return
      [.dispatch (chars "mount\tsfs  lhd0:"), .invoke .cmd_mount [chars "mount", chars "sfs", chars "lhd0:"] (some 0),
        .dispatch (chars " "), .dispatch (chars "nosuch lhd0"), .not_found (chars "nosuch"), .failed EINVAL,
        .dispatch (chars "q"), .invoke .cmd_quit [chars "q"] none] := by
  have hrun := (menu_execute_parses ⟨false, false⟩ sampleFuncs false sampleLine (by decide) ()).1
  have heval : (menu_execute ⟨false, false⟩ sampleFuncs sampleLine false ()).1 = .no_return ∧
      (menu_execute ⟨false, false⟩ sampleFuncs sampleLine false ()).2.events =
        [.dispatch (chars "mount\tsfs  lhd0:"), .invoke .cmd_mount [chars "mount", chars "sfs", chars "lhd0:"] (some 0),
          .dispatch (chars " "), .dispatch (chars "nosuch lhd0"), .not_found (chars "nosuch"), .failed EINVAL,
          .dispatch (chars "q"), .invoke .cmd_quit [chars "q"] none] := by
    decide +kernel
  rwa [heval.1, heval.2] at hrun

/-- On the command line of the kernel, a command that fails is the last one. -/
theorem menu_execute_stops :
    runs (· ∈ semicolon) (chars "nosuch;q") = [chars "nosuch", chars "q"] ∧
      (menu_execute ⟨false, false⟩ sampleFuncs (chars "nosuch;q") true ()).1 = .panic ∧
      (menu_execute ⟨false, false⟩ sampleFuncs (chars "nosuch;q") true ()).2.events =
        [.dispatch (chars "nosuch"), .not_found (chars "nosuch"), .failed EINVAL] := by
  decide +kernel

end Os161.Menu
