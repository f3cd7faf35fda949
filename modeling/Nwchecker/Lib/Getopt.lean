import Mathlib.Logic.Basic
import Mathlib.Data.List.Basic
import Mathlib.Data.List.TakeWhile

/-!
# Command lines

`getopt_long` reads options from the words of a command line: letters after one `-`, several in one
word if only the last one has an argument, and names after `--`, which may be abbreviated. Operands
may stand in between. `calls` is what it returns from call to call until it returns `-1`.

The reverse is not unique, since an option can be written in several ways: `Spells`. A command line
is well formed when it spells something, and `spells_iff` says that these are the command lines for
which no call returns `'?'`.

The option string is one without the signs that change the mode (`+`, `-`, `:` in front, `W;`), and
there are no optional arguments.
-/

namespace Getopt

abbrev Word := List Char

/-- `no_argument`, `required_argument` -/
inductive HasArg where
  | no
  | required
  deriving DecidableEq, Repr

/-- `struct option`, with `flag` null -/
structure LongOption where
  name : Word
  hasArg : HasArg
  val : Char
  deriving DecidableEq, Repr

/-- With `posixly`, for `POSIXLY_CORRECT`, the options end in front of the first operand. -/
structure Options where
  optstring : List Char
  longOptions : List LongOption
  posixly : Bool

/-- What a call returns: an option and `optarg`, or `'?'`. -/
inductive Call where
  | option (c : Char) (optarg : Option Word)
  | invalid
  deriving DecidableEq, Repr

/-- The calls that one word is good for, and the option whose argument is the next word. -/
structure Scanned where
  calls : List Call
  pending : Option Char
  deriving DecidableEq, Repr

def Scanned.after (s : Scanned) (call : Call) : Scanned := { s with calls := call :: s.calls }

/-- The entry of `c` in the option string. -/
def shortOption (optstring : List Char) (c : Char) : Option HasArg :=
  if c = ':' ∨ c = ';' then none
  else
    match optstring.dropWhile fun x => x ≠ c with
    | [] => none
    | _ :: ':' :: _ => some .required
    | _ => some .no

/-- The option of that name, or the only one whose name begins like this. -/
def longOption (options : List LongOption) (name : Word) : Option LongOption :=
  match options.find? fun p => p.name = name with
  | some p => some p
  | none =>
    match options.filter fun p => name.isPrefixOf p.name with
    | [] => none
    | p :: ps => if ∀ q ∈ ps, q.hasArg = p.hasArg ∧ q.val = p.val then some p else none

/-- A word behind its `-`. -/
def letters (o : Options) : List Char → Scanned
  | [] => { calls := [], pending := none }
  | c :: cs =>
    match shortOption o.optstring c with
    | none => (letters o cs).after .invalid
    | some .no => (letters o cs).after (.option c none)
    | some .required =>
      if cs = [] then { calls := [], pending := some c }
      else { calls := [.option c (some cs)], pending := none }

/-- A word behind its `--`. -/
def long (o : Options) (body : Word) : Scanned :=
  match longOption o.longOptions (body.takeWhile fun c => c ≠ '=') with
  | none => { calls := [.invalid], pending := none }
  | some p =>
    match body.dropWhile fun c => c ≠ '=', p.hasArg with
    | [], .no => { calls := [.option p.val none], pending := none }
    | [], .required => { calls := [], pending := some p.val }
    | _ :: _, .no => { calls := [.invalid], pending := none }
    | _ :: arg, .required => { calls := [.option p.val (some arg)], pending := none }

/-- `none` for an operand. -/
def scan (o : Options) : Word → Option Scanned
  | '-' :: '-' :: body => some (long o body)
  | '-' :: c :: cs => some (letters o (c :: cs))
  | _ => none

/-- What `getopt_long` returns from call to call, when an option waits for its argument or not. -/
def calls (o : Options) : Option Char → List Word → List Call
  | none, [] => []
  | some _, [] => [.invalid]
  | some c, w :: ws => .option c (some w) :: calls o none ws
  | none, w :: ws =>
    if w = ['-', '-'] then []
    else
      match scan o w with
      | some s => s.calls ++ calls o s.pending ws
      | none => if o.posixly then [] else calls o none ws

/-! ## What can be written -/

/-- The ways to write options as letters. -/
inductive Letters (o : Options) : List Char → Scanned → Prop where
  | nil : Letters o [] { calls := [], pending := none }
  | flag {c cs s} (hc : shortOption o.optstring c = some .no) (hcs : Letters o cs s) :
      Letters o (c :: cs) (s.after (.option c none))
  | attached {c arg} (hc : shortOption o.optstring c = some .required) (harg : arg ≠ []) :
      Letters o (c :: arg) { calls := [.option c (some arg)], pending := none }
  | separate {c} (hc : shortOption o.optstring c = some .required) :
      Letters o [c] { calls := [], pending := some c }

/-- The ways to write an option by its name. -/
inductive Long (o : Options) : Word → Scanned → Prop where
  | flag {name p} (hname : '=' ∉ name) (hp : longOption o.longOptions name = some p)
      (hno : p.hasArg = .no) : Long o name { calls := [.option p.val none], pending := none }
  | attached {name p} (arg : Word) (hname : '=' ∉ name)
      (hp : longOption o.longOptions name = some p) (hreq : p.hasArg = .required) :
      Long o (name ++ '=' :: arg) { calls := [.option p.val (some arg)], pending := none }
  | separate {name p} (hname : '=' ∉ name) (hp : longOption o.longOptions name = some p)
      (hreq : p.hasArg = .required) : Long o name { calls := [], pending := some p.val }

inductive Written (o : Options) : Word → Scanned → Prop where
  | long {body s} (hbody : body ≠ []) (h : Long o body s) : Written o ('-' :: '-' :: body) s
  | letters {c cs s} (hc : c ≠ '-') (h : Letters o (c :: cs) s) : Written o ('-' :: c :: cs) s

/-- The command lines that give these options, in this order. -/
inductive Spells (o : Options) : List Call → List Word → Prop where
  | done : Spells o [] []
  | terminated (ws : List Word) : Spells o [] (['-', '-'] :: ws)
  | stopped {w} (ws : List Word) (hw : scan o w = none) (hposixly : o.posixly = true) :
      Spells o [] (w :: ws)
  | skipped {w cs ws} (hw : scan o w = none) (hposixly : o.posixly = false) (h : Spells o cs ws) :
      Spells o cs (w :: ws)
  | word {w l cs ws} (hw : Written o w { calls := l, pending := none }) (h : Spells o cs ws) :
      Spells o (l ++ cs) (w :: ws)
  | pair {w l c cs ws} (arg : Word) (hw : Written o w { calls := l, pending := some c })
      (h : Spells o cs ws) : Spells o (l ++ .option c (some arg) :: cs) (w :: arg :: ws)

variable {o : Options} {w : Word} {ws : List Word} {s : Scanned} {cs : List Call}

theorem Letters.valid {l : List Char} (h : Letters o l s) : Call.invalid ∉ s.calls := by
  induction h with
  | nil => exact List.not_mem_nil
  | flag hc hcs ih => simp [Scanned.after, ih]
  | attached hc harg => simp
  | separate hc => exact List.not_mem_nil

theorem letters_iff {l : List Char} :
    Letters o l s ↔ letters o l = s ∧ Call.invalid ∉ s.calls := by
  refine ⟨fun h => ⟨?_, h.valid⟩, ?_⟩
  · induction h with
    | nil => rfl
    | flag hc hcs ih => rw [letters, hc, ← ih]
    | attached hc harg =>
      rw [letters, hc]
      exact if_neg harg
    | separate hc =>
      rw [letters, hc]
      exact if_pos rfl
  · rintro ⟨rfl, hvalid⟩
    induction l with
    | nil => exact .nil
    | cons c l ih =>
      rw [letters] at hvalid ⊢
      split
      · next hc =>
        rw [hc] at hvalid
        exact absurd (List.mem_cons_self ..) hvalid
      · next hc =>
        rw [hc] at hvalid
        exact .flag hc (ih fun hin => hvalid (List.mem_cons_of_mem _ hin))
      · next hc =>
        by_cases hl : l = []
        · rw [if_pos hl, hl]
          exact .separate hc
        · rw [if_neg hl]
          exact .attached hc hl

/-- A name ends in front of the first `=`. -/
theorem split_name {name : Word} (arg : Word) (h : '=' ∉ name) :
    ((name ++ '=' :: arg).takeWhile fun c => c ≠ '=') = name ∧
      ((name ++ '=' :: arg).dropWhile fun c => c ≠ '=') = '=' :: arg := by
  have hall : ∀ c ∈ name, decide (c ≠ '=') = true := fun c hc =>
    decide_eq_true fun heq => h (heq ▸ hc)
  rw [List.takeWhile_append_of_pos hall, List.dropWhile_append_of_pos hall]
  exact ⟨by simp, by simp⟩

theorem whole_name {name : Word} (h : '=' ∉ name) :
    (name.takeWhile fun c => c ≠ '=') = name ∧ (name.dropWhile fun c => c ≠ '=') = [] := by
  have hall : ∀ c ∈ name, decide (c ≠ '=') = true := fun c hc =>
    decide_eq_true fun heq => h (heq ▸ hc)
  exact ⟨List.takeWhile_eq_self_iff.mpr hall, List.dropWhile_eq_nil_iff.mpr hall⟩

theorem long_iff : Long o w s ↔ long o w = s ∧ Call.invalid ∉ s.calls := by
  constructor
  · intro h
    cases h with
    | flag hname hp hno =>
      obtain ⟨htake, hdrop⟩ := whole_name hname
      refine ⟨?_, by simp⟩
      simp only [long, htake, hp, hdrop, hno]
    | attached arg hname hp hreq =>
      obtain ⟨htake, hdrop⟩ := split_name arg hname
      refine ⟨?_, by simp⟩
      simp only [long, htake, hp, hdrop, hreq]
    | separate hname hp hreq =>
      obtain ⟨htake, hdrop⟩ := whole_name hname
      refine ⟨?_, List.not_mem_nil⟩
      simp only [long, htake, hp, hdrop, hreq]
  · rintro ⟨rfl, hvalid⟩
    have hname : '=' ∉ w.takeWhile fun c => c ≠ '=' := fun hin => by
      simpa using List.mem_takeWhile_imp hin
    have hw := List.takeWhile_append_dropWhile (p := fun c => decide (c ≠ '=')) (l := w)
    rw [long] at hvalid ⊢
    split
    · next hp =>
      rw [hp] at hvalid
      exact absurd (List.mem_singleton_self _) hvalid
    · next p hp =>
      rw [hp] at hvalid
      dsimp only at hvalid
      split
      · next hdrop hno =>
        rw [hdrop, List.append_nil] at hw
        rw [hw] at hname hp
        exact .flag hname hp hno
      · next hdrop hreq =>
        rw [hdrop, List.append_nil] at hw
        rw [hw] at hname hp
        exact .separate hname hp hreq
      · next hdrop hno =>
        rw [hdrop, hno] at hvalid
        exact absurd (List.mem_singleton_self _) hvalid
      · next e arg hdrop hreq =>
        have he : e = '=' := by
          have hhead := List.head?_dropWhile_not (fun c => decide (c ≠ '=')) w
          rw [hdrop] at hhead
          simpa using hhead
        rw [hdrop, he] at hw
        rw [← hw]
        exact .attached arg hname hp hreq

theorem written_iff :
    Written o w s ↔ w ≠ ['-', '-'] ∧ scan o w = some s ∧ Call.invalid ∉ s.calls := by
  constructor
  · intro h
    cases h with
    | @long body s hbody h =>
      obtain ⟨hlong, hvalid⟩ := long_iff.mp h
      exact ⟨by simp [hbody], by rw [scan, hlong], hvalid⟩
    | @letters c cs s hc h =>
      obtain ⟨hletters, hvalid⟩ := letters_iff.mp h
      refine ⟨by simp [hc], ?_, hvalid⟩
      rw [scan, hletters]
      exact hc
  · rintro ⟨hne, hscan, hvalid⟩
    unfold scan at hscan
    split at hscan
    · next body =>
      cases hscan
      exact .long (fun hbody => hne (by rw [hbody])) (long_iff.mpr ⟨rfl, hvalid⟩)
    · next c l hc =>
      cases hscan
      exact .letters hc (letters_iff.mpr ⟨rfl, hvalid⟩)
    · cases hscan

/-! ## What is read -/

theorem calls_terminated (o : Options) (ws : List Word) : calls o none (['-', '-'] :: ws) = [] :=
  if_pos rfl

theorem calls_operand (hw : scan o w = none) :
    calls o none (w :: ws) = if o.posixly then [] else calls o none ws := by
  have hne : w ≠ ['-', '-'] := fun h => by
    rw [h] at hw
    cases hw
  rw [calls, if_neg hne, hw]

theorem calls_written (h : Written o w s) :
    calls o none (w :: ws) = s.calls ++ calls o s.pending ws := by
  obtain ⟨hne, hscan, -⟩ := written_iff.mp h
  rw [calls, if_neg hne, hscan]

theorem Spells.calls_eq (h : Spells o cs ws) : calls o none ws = cs := by
  induction h with
  | done => rfl
  | terminated ws => exact calls_terminated o ws
  | stopped ws hw hposixly => rw [calls_operand hw, if_pos hposixly]
  | skipped hw hposixly h ih => rw [calls_operand hw, if_neg (by simp [hposixly]), ih]
  | word hw h ih => rw [calls_written hw, ih]
  | pair arg hw h ih =>
    rw [calls_written hw, ← ih]
    rfl

theorem Spells.valid (h : Spells o cs ws) : Call.invalid ∉ cs := by
  induction h with
  | done => exact List.not_mem_nil
  | terminated ws => exact List.not_mem_nil
  | stopped ws hw hposixly => exact List.not_mem_nil
  | skipped hw hposixly h ih => exact ih
  | word hw h ih =>
    obtain ⟨-, -, hvalid⟩ := written_iff.mp hw
    exact fun hin => (List.mem_append.mp hin).elim hvalid ih
  | pair arg hw h ih =>
    obtain ⟨-, -, hvalid⟩ := written_iff.mp hw
    intro hin
    rcases List.mem_append.mp hin with hin | hin
    · exact hvalid hin
    · exact ih ((List.mem_cons.mp hin).resolve_left (by simp))

/-- By induction on the words; an option that waits finds its argument. -/
theorem spells_calls : ∀ (ws : List Word) (p : Option Char), Call.invalid ∉ calls o p ws →
    (p = none → Spells o (calls o none ws) ws) ∧
      (∀ c, p = some c → ∃ arg l, ws = arg :: l ∧ Spells o (calls o none l) l)
  | [], none, _ => ⟨fun _ => .done, fun _ h => (by cases h)⟩
  | [], some c, hvalid => absurd (List.mem_singleton_self _) hvalid
  | w :: ws, some c, hvalid => by
    have ih := spells_calls ws none fun hin => hvalid (List.mem_cons_of_mem _ hin)
    exact ⟨fun h => (by cases h), fun _ _ => ⟨w, ws, rfl, ih.1 rfl⟩⟩
  | w :: ws, none, hvalid => by
    refine ⟨fun _ => ?_, fun _ h => (by cases h)⟩
    by_cases hend : w = ['-', '-']
    · rw [hend, calls_terminated]
      exact .terminated ws
    · cases hscan : scan o w with
      | none =>
        rw [calls_operand hscan] at hvalid ⊢
        cases hposixly : o.posixly with
        | true => exact .stopped ws hscan hposixly
        | false =>
          rw [hposixly] at hvalid
          exact .skipped hscan hposixly ((spells_calls ws none hvalid).1 rfl)
      | some s =>
        rw [calls, if_neg hend, hscan] at hvalid ⊢
        have hword : Call.invalid ∉ s.calls := fun h => hvalid (List.mem_append_left _ h)
        have hrest : Call.invalid ∉ calls o s.pending ws := fun h =>
          hvalid (List.mem_append_right _ h)
        have hw : Written o w s := written_iff.mpr ⟨hend, hscan, hword⟩
        have ih := spells_calls ws s.pending hrest
        obtain ⟨l, pending⟩ := s
        cases pending with
        | none => exact .word hw (ih.1 rfl)
        | some c =>
          obtain ⟨arg, l, rfl, hspells⟩ := ih.2 c rfl
          exact .pair arg hw hspells

/-- **A command line is read as what it spells, and has an error if it spells nothing.** -/
theorem spells_iff : Spells o cs ws ↔ calls o none ws = cs ∧ Call.invalid ∉ cs := by
  refine ⟨fun h => ⟨h.calls_eq, h.valid⟩, ?_⟩
  rintro ⟨rfl, hvalid⟩
  exact (spells_calls ws none hvalid).1 rfl

/-! ## Options -/

/-- The option `c` is in the tables, with an argument or without. -/
def Entry (o : Options) (c : Char) (h : HasArg) : Prop :=
  shortOption o.optstring c = some h ∨ ∃ p ∈ o.longOptions, p.val = c ∧ p.hasArg = h

/-- The call is one that the tables provide for. -/
def Call.Listed (o : Options) : Call → Prop
  | .option c none => Entry o c .no
  | .option c (some _) => Entry o c .required
  | .invalid => False

/-- The option that waits is one with an argument. -/
def Scanned.Listed (o : Options) (s : Scanned) : Prop :=
  (∀ call ∈ s.calls, call.Listed o) ∧ ∀ c ∈ s.pending, Entry o c .required

theorem Letters.listed {l : List Char} (h : Letters o l s) : s.Listed o := by
  induction h with
  | nil => exact ⟨fun _ h => absurd h List.not_mem_nil, fun _ h => by cases h⟩
  | flag hc hcs ih => exact ⟨List.forall_mem_cons.mpr ⟨Or.inl hc, ih.1⟩, ih.2⟩
  | attached hc harg =>
    exact ⟨List.forall_mem_singleton.mpr (Or.inl hc), fun _ h => by cases h⟩
  | separate hc =>
    refine ⟨fun _ h => absurd h List.not_mem_nil, fun d h => ?_⟩
    cases h
    exact Or.inl hc

theorem mem_of_longOption {options : List LongOption} {name : Word} {p : LongOption}
    (h : longOption options name = some p) : p ∈ options := by
  unfold longOption at h
  split at h
  · next q hfind =>
    cases h
    exact List.mem_of_find?_eq_some hfind
  · split at h
    · cases h
    · next q l hfilter =>
      split at h
      · cases h
        exact (List.mem_filter.mp (hfilter ▸ List.mem_cons_self ..)).1
      · cases h

theorem Long.listed (h : Long o w s) : s.Listed o := by
  cases h with
  | flag hname hp hno =>
    exact ⟨List.forall_mem_singleton.mpr (Or.inr ⟨_, mem_of_longOption hp, rfl, hno⟩),
      fun _ h => by cases h⟩
  | attached arg hname hp hreq =>
    exact ⟨List.forall_mem_singleton.mpr (Or.inr ⟨_, mem_of_longOption hp, rfl, hreq⟩),
      fun _ h => by cases h⟩
  | separate hname hp hreq =>
    refine ⟨fun _ h => absurd h List.not_mem_nil, fun d h => ?_⟩
    cases h
    exact Or.inr ⟨_, mem_of_longOption hp, rfl, hreq⟩

theorem Written.listed (h : Written o w s) : s.Listed o := by
  cases h with
  | long hbody h => exact h.listed
  | letters hc h => exact h.listed

theorem Spells.listed (h : Spells o cs ws) : ∀ call ∈ cs, call.Listed o := by
  induction h with
  | done => exact fun _ h => absurd h List.not_mem_nil
  | terminated ws => exact fun _ h => absurd h List.not_mem_nil
  | stopped ws hw hposixly => exact fun _ h => absurd h List.not_mem_nil
  | skipped hw hposixly h ih => exact ih
  | word hw h ih => exact List.forall_mem_append.mpr ⟨hw.listed.1, ih⟩
  | pair arg hw h ih =>
    obtain ⟨hcalls, hpending⟩ := hw.listed
    exact List.forall_mem_append.mpr ⟨hcalls, List.forall_mem_cons.mpr ⟨hpending _ rfl, ih⟩⟩

/-- Options without an operand take a word. -/
theorem Spells.ne_nil (h : Spells o cs ws) (hne : cs ≠ []) : ws ≠ [] := by
  cases h with
  | done => exact absurd rfl hne
  | _ => exact List.cons_ne_nil _ _

/-! ## Settings

An option that is given more than once counts as it was given last.
-/

universe u

variable {α : Type u} {f : Call → Option α} {c : Call} {ds : List Call} {a x : α}

/-- What `f` reads from the last call in which it finds something, or else `a`. -/
def lastOf (f : Call → Option α) (cs : List Call) (a : α) : α :=
  (cs.filterMap f).getLast?.getD a

theorem lastOf_cons : lastOf f (c :: cs) a = lastOf f cs ((f c).getD a) := by
  cases hc : f c with
  | none => rw [lastOf, List.filterMap_cons_none hc, lastOf, Option.getD_none]
  | some x =>
    rw [lastOf, List.filterMap_cons_some hc, List.getLast?_cons, lastOf, Option.getD_some,
      Option.getD_some]

/-- What is given once counts wherever it stands. -/
theorem lastOf_perm (h : cs.Perm ds) (hds : ds.filterMap f = [x]) : lastOf f cs a = x := by
  have hcs : (cs.filterMap f).Perm [x] := hds ▸ h.filterMap f
  rw [lastOf, List.perm_singleton.mp hcs]
  rfl

end Getopt
