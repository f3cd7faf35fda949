import Nwchecker.Lib.Getopt

/-!
# The command line of the checker

`nwc_configuration_parse` and what `main` makes of the configuration. `nwcConfigurationParse_iff`
says which command lines are taken and what is set then; `nwcMain_settings` goes the other way, from
a configuration to the command lines that start the checker with it.
-/

namespace Nwchecker

open Getopt

def NWC_CLIENT : Int32 := 1
def NWC_SERVER : Int32 := 2
def NWC_PROTO_TCP : Int32 := 1
def NWC_PROTO_UDP : Int32 := 2
def DEFAULT_PORT : UInt16 := 9820

/-- `struct nwc_configuration` -/
structure NwcConfiguration where
  ip : Option Word
  port : UInt16
  mode : Int32
  prototype : Int32
  countSecs : Int32
  bandwidth : Int32
  deriving DecidableEq, Repr

/-- What `memset` leaves in `main`. -/
def NwcConfiguration.zero : NwcConfiguration where
  ip := none
  port := 0
  mode := 0
  prototype := 0
  countSecs := 0
  bandwidth := 0

/-! ## atoi -/

def isspace (c : Char) : Bool := c ∈ [' ', '\t', '\n', '\x0b', '\x0c', '\r']

/-- The number in front, up to the first character that is no digit. -/
def digits (l : Word) : Nat := Nat.ofDigitChars 10 (l.takeWhile Char.isDigit) 0

def LONG_MAX : Nat := 9223372036854775807

/-- `strtol` in base 10, where `long` has 64 bits. -/
def strtol (s : Word) : Int :=
  match s.dropWhile isspace with
  | '-' :: l => -(min (digits l) (LONG_MAX + 1) : Nat)
  | '+' :: l => (min (digits l) LONG_MAX : Nat)
  | l => (min (digits l) LONG_MAX : Nat)

def atoi (s : Word) : Int32 := Int32.ofInt (strtol s)

/-! ## nwc_configuration_parse -/

def nwcOptions (posixly : Bool) : Options where
  optstring := "uthcsp:a:o:b:".toList
  longOptions :=
    [{ name := "help".toList, hasArg := .no, val := 'h' },
      { name := "client".toList, hasArg := .no, val := 'c' },
      { name := "server".toList, hasArg := .no, val := 's' },
      { name := "port".toList, hasArg := .required, val := 'p' },
      { name := "address".toList, hasArg := .required, val := 'a' },
      { name := "count".toList, hasArg := .required, val := 'o' },
      { name := "bandwidth".toList, hasArg := .required, val := 'b' },
      { name := "tcp".toList, hasArg := .no, val := 't' },
      { name := "udp".toList, hasArg := .no, val := 'u' }]
  posixly := posixly

/-- The body of the loop, `none` where `usage` ends the process. -/
def NwcConfiguration.set (config : NwcConfiguration) : Call → Option NwcConfiguration
  | .option 'c' _ => some { config with mode := NWC_CLIENT }
  | .option 's' _ => some { config with mode := NWC_SERVER }
  | .option 'p' (some optarg) => some { config with port := UInt16.ofInt (atoi optarg).toInt }
  | .option 'a' (some optarg) => some { config with ip := some optarg }
  | .option 'o' (some optarg) => some { config with countSecs := atoi optarg }
  | .option 'b' (some optarg) => some { config with bandwidth := atoi optarg }
  | .option 't' _ => some { config with prototype := NWC_PROTO_TCP }
  | .option 'u' _ => some { config with prototype := NWC_PROTO_UDP }
  | _ => none

/-- `getopt_long` begins behind `argv[0]`. -/
def nwcConfigurationParse (posixly : Bool) (config : NwcConfiguration) (argv : List Word) :
    Option NwcConfiguration :=
  (calls (nwcOptions posixly) none argv.tail).foldlM NwcConfiguration.set config

/-! ## main -/

/-- What the process comes to. -/
inductive Launch where
  | noMode
  | usage
  | noAddress
  /-- `nwc_looper_start` returned the error. -/
  | noLooper (rc : Int)
  | noPrototype
  | client (cfg : NwcConfiguration)
  | server (cfg : NwcConfiguration)
  | idle
  deriving DecidableEq, Repr

/-- The protocol if none is given. -/
def NwcConfiguration.withPrototype (cfg : NwcConfiguration) : NwcConfiguration :=
  { cfg with prototype := if cfg.prototype = 0 then NWC_PROTO_TCP else cfg.prototype }

/-- `nwc_client_main`, up to `nwc_client_start`. `rc` is what `nwc_looper_start` returns. -/
def nwcClientMain (rc : Int) (cfg : NwcConfiguration) : Launch :=
  if cfg.ip = none ∨ cfg.port = 0 then .noAddress
  else if rc ≠ 0 then .noLooper rc
  else
    let cfg := cfg.withPrototype
    if cfg.prototype = NWC_PROTO_TCP ∨ cfg.prototype = NWC_PROTO_UDP then .client cfg
    else .noPrototype

/-- `nwc_server_main`, up to `nwc_server_start`. -/
def nwcServerMain (rc : Int) (cfg : NwcConfiguration) : Launch :=
  if rc ≠ 0 then .noLooper rc
  else
    let cfg := { cfg with port := if cfg.port = 0 then DEFAULT_PORT else cfg.port }.withPrototype
    if cfg.prototype = NWC_PROTO_TCP ∨ cfg.prototype = NWC_PROTO_UDP then .server cfg
    else .noPrototype

def nwcMain (posixly : Bool) (rc : Int) (argv : List Word) : Launch :=
  if argv.length < 2 then .noMode
  else
    match nwcConfigurationParse posixly .zero argv with
    | none => .usage
    | some cfg =>
      if cfg.mode = NWC_CLIENT then nwcClientMain rc cfg
      else if cfg.mode = NWC_SERVER then nwcServerMain rc cfg
      else .idle

/-! ## What is set -/

def ipGiven : Call → Option (Option Word)
  | .option 'a' (some optarg) => some (some optarg)
  | _ => none

def portGiven : Call → Option UInt16
  | .option 'p' (some optarg) => some (UInt16.ofInt (atoi optarg).toInt)
  | _ => none

def modeGiven : Call → Option Int32
  | .option 'c' _ => some NWC_CLIENT
  | .option 's' _ => some NWC_SERVER
  | _ => none

def prototypeGiven : Call → Option Int32
  | .option 't' _ => some NWC_PROTO_TCP
  | .option 'u' _ => some NWC_PROTO_UDP
  | _ => none

def countSecsGiven : Call → Option Int32
  | .option 'o' (some optarg) => some (atoi optarg)
  | _ => none

def bandwidthGiven : Call → Option Int32
  | .option 'b' (some optarg) => some (atoi optarg)
  | _ => none

/-- Each field as its last option says. -/
def NwcConfiguration.assigned (config : NwcConfiguration) (cs : List Call) : NwcConfiguration where
  ip := lastOf ipGiven cs config.ip
  port := lastOf portGiven cs config.port
  mode := lastOf modeGiven cs config.mode
  prototype := lastOf prototypeGiven cs config.prototype
  countSecs := lastOf countSecsGiven cs config.countSecs
  bandwidth := lastOf bandwidthGiven cs config.bandwidth

/-- `--help` -/
def help : Call := .option 'h' none

variable {posixly : Bool} {config config' : NwcConfiguration} {c : Call} {cs : List Call}

/-- The letters with an argument, and those without. -/
def lettersOf : HasArg → List Char
  | .no => "uthcs".toList
  | .required => "paob".toList

theorem entry_letter {d : Char} {h : HasArg} (hentry : Entry (nwcOptions posixly) d h) :
    d ∈ lettersOf h := by
  rcases hentry with hshort | ⟨p, hp, rfl, rfl⟩
  · have hd : d ∈ "uthcsp:a:o:b:".toList := by
      by_contra hd
      have hdrop : ((nwcOptions posixly).optstring.dropWhile fun x => x ≠ d) = [] :=
        List.dropWhile_eq_nil_iff.mpr fun x hx => decide_eq_true fun heq => hd (heq ▸ hx)
      rw [shortOption, hdrop] at hshort
      simp at hshort
    have hall : ("uthcsp:a:o:b:".toList.all fun e =>
        (shortOption "uthcsp:a:o:b:".toList e).all fun k => e ∈ lettersOf k) = true := by decide
    have hmem := List.all_eq_true.mp hall d hd
    rw [show shortOption "uthcsp:a:o:b:".toList d = some h from hshort] at hmem
    exact of_decide_eq_true hmem
  · have hall : ∀ q ∈ (nwcOptions true).longOptions, q.val ∈ lettersOf q.hasArg := by decide
    exact hall p hp

theorem set_eq (hc : c.Listed (nwcOptions posixly)) (hhelp : c ≠ help) :
    config.set c = some (config.assigned [c]) := by
  cases c with
  | option d optarg =>
    cases optarg with
    | none =>
      have hd : d ∈ ['u', 't', 'h', 'c', 's'] := entry_letter hc
      simp only [List.mem_cons, List.not_mem_nil, or_false] at hd
      rcases hd with rfl | rfl | rfl | rfl | rfl
      · rfl
      · rfl
      · exact absurd rfl hhelp
      · rfl
      · rfl
    | some optarg =>
      have hd : d ∈ ['p', 'a', 'o', 'b'] := entry_letter hc
      simp only [List.mem_cons, List.not_mem_nil, or_false] at hd
      rcases hd with rfl | rfl | rfl | rfl <;> rfl
  | invalid => exact absurd hc id

theorem set_help : config.set help = none := rfl

theorem assigned_cons :
    config.assigned (c :: cs) = (config.assigned [c]).assigned cs := by
  simp only [NwcConfiguration.assigned, lastOf_cons]
  rfl

theorem foldlM_set (hcs : ∀ c ∈ cs, c.Listed (nwcOptions posixly)) :
    cs.foldlM NwcConfiguration.set config
      = if help ∈ cs then none else some (config.assigned cs) := by
  induction cs generalizing config with
  | nil => rfl
  | cons c cs ih =>
    obtain ⟨hc, hcs⟩ := List.forall_mem_cons.mp hcs
    rw [List.foldlM_cons]
    by_cases hhelp : c = help
    · rw [hhelp, set_help, if_pos (List.mem_cons_self ..)]
      rfl
    · rw [set_eq hc hhelp]
      show cs.foldlM NwcConfiguration.set (config.assigned [c]) = _
      rw [ih hcs, ← assigned_cons]
      refine if_congr ?_ rfl rfl
      exact ⟨List.mem_cons_of_mem _, fun h => (List.mem_cons.mp h).resolve_left (Ne.symm hhelp)⟩

/-- `'?'` ends in `usage`. -/
theorem foldlM_invalid (h : Call.invalid ∈ cs) :
    cs.foldlM NwcConfiguration.set config = none := by
  induction cs generalizing config with
  | nil => cases h
  | cons c cs ih =>
    rw [List.foldlM_cons]
    rcases List.mem_cons.mp h with rfl | h
    · rfl
    · cases config.set c with
      | none => rfl
      | some config => exact ih h

/--
**The options that a command line is taken for.**

`nwc_configuration_parse` returns if and only if the words spell options, and not `--help`. Then
each field is what the last of its options says.
-/
theorem nwcConfigurationParse_iff (posixly : Bool) (config config' : NwcConfiguration)
    (argv : List Word) : nwcConfigurationParse posixly config argv = some config' ↔
      ∃ cs, Spells (nwcOptions posixly) cs argv.tail ∧ help ∉ cs ∧
        config' = config.assigned cs := by
  rw [nwcConfigurationParse]
  constructor
  · intro h
    by_cases hvalid : Call.invalid ∈ calls (nwcOptions posixly) none argv.tail
    · rw [foldlM_invalid hvalid] at h
      cases h
    · have hspells := spells_iff.mpr ⟨rfl, hvalid⟩
      rw [foldlM_set hspells.listed] at h
      split at h
      · cases h
      · next hhelp =>
        cases h
        exact ⟨_, hspells, hhelp, rfl⟩
  · rintro ⟨cs, hspells, hhelp, rfl⟩
    rw [hspells.calls_eq, foldlM_set hspells.listed, if_neg hhelp]

/-! ## Numbers -/

def renderInt (x : Int32) : Word :=
  if x.toInt < 0 then '-' :: Nat.toDigits 10 x.toInt.natAbs else Nat.toDigits 10 x.toInt.toNat

theorem digits_toDigits (n : Nat) : digits (Nat.toDigits 10 n) = n := by
  have hall : (Nat.toDigits 10 n).takeWhile Char.isDigit = Nat.toDigits 10 n :=
    List.takeWhile_eq_self_iff.mpr fun _ hc =>
      Nat.isDigit_of_mem_toDigits (by omega) (Nat.le_refl 10) hc
  rw [digits, hall, Nat.ofDigitChars_ten_toDigits]

/-- A digit is not a sign, and `strtol` does not skip it. -/
theorem isDigit_ne {d : Char} (hd : d.isDigit = true) : isspace d = false ∧ d ≠ '-' ∧ d ≠ '+' := by
  refine ⟨?_, fun h => by simp [h] at hd, fun h => by simp [h] at hd⟩
  by_contra hspace
  have hin : d ∈ [' ', '\t', '\n', '\x0b', '\x0c', '\r'] :=
    of_decide_eq_true (Bool.of_not_eq_false hspace)
  have hall : ([' ', '\t', '\n', '\x0b', '\x0c', '\r'].all fun e => !e.isDigit) = true := by decide
  simpa [hd] using List.all_eq_true.mp hall d hin

theorem strtol_toDigits (n : Nat) : strtol (Nat.toDigits 10 n) = (min n LONG_MAX : Nat) := by
  have hvalue := digits_toDigits n
  have hne := Nat.toDigits_ne_nil (b := 10) (n := n)
  have hdigit : ∀ d ∈ Nat.toDigits 10 n, d.isDigit = true := fun d hd =>
    Nat.isDigit_of_mem_toDigits (by omega) (Nat.le_refl 10) hd
  generalize Nat.toDigits 10 n = l at hvalue hne hdigit
  cases l with
  | nil => exact absurd rfl hne
  | cons d l =>
    obtain ⟨hspace, hminus, hplus⟩ := isDigit_ne (hdigit d (List.mem_cons_self ..))
    rw [strtol, List.dropWhile_cons_of_neg (by simp [hspace])]
    split
    · next h => exact absurd (List.cons.inj h).1 hminus
    · next h => exact absurd (List.cons.inj h).1 hplus
    · rw [hvalue]

theorem strtol_negative (n : Nat) :
    strtol ('-' :: Nat.toDigits 10 n) = -(min n (LONG_MAX + 1) : Nat) := by
  rw [strtol, List.dropWhile_cons_of_neg (by decide)]
  show -((min (digits (Nat.toDigits 10 n)) (LONG_MAX + 1) : Nat) : Int) = _
  rw [digits_toDigits]

theorem atoi_renderInt (x : Int32) : atoi (renderInt x) = x := by
  have hlt := x.toInt_lt
  have hle := x.le_toInt
  have hstrtol : strtol (renderInt x) = x.toInt := by
    unfold renderInt
    split
    · rw [strtol_negative, LONG_MAX]
      omega
    · rw [strtol_toDigits, LONG_MAX]
      omega
  rw [atoi, hstrtol, Int32.ofInt_toInt]

theorem atoi_port (port : UInt16) :
    UInt16.ofInt (atoi (Nat.toDigits 10 port.toNat)).toInt = port := by
  have hlt : port.toNat < 65536 := port.toNat_lt
  have hmin : min port.toNat LONG_MAX = port.toNat := by
    rw [LONG_MAX]
    omega
  have hmod : ((port.toNat : Int) % 2 ^ 16).toNat = port.toNat := by omega
  rw [atoi, strtol_toDigits, hmin, Int32.toInt_ofInt_of_le (by omega) (by omega), UInt16.ofInt,
    hmod, UInt16.ofNat_toNat]

/-! ## From the configuration to the command line -/

namespace NwcConfiguration

/-- The options for `cfg`. -/
def settings (cfg : NwcConfiguration) : List Call :=
  [.option (if cfg.mode = NWC_CLIENT then 'c' else 's') none,
    .option (if cfg.prototype = NWC_PROTO_TCP then 't' else 'u') none,
    .option 'a' (some (cfg.ip.getD [])),
    .option 'p' (some (Nat.toDigits 10 cfg.port.toNat)),
    .option 'o' (some (renderInt cfg.countSecs)),
    .option 'b' (some (renderInt cfg.bandwidth))]

/-- What can be said with options. -/
structure Complete (cfg : NwcConfiguration) : Prop where
  ip : cfg.ip ≠ none
  port : cfg.port ≠ 0
  mode : cfg.mode = NWC_CLIENT ∨ cfg.mode = NWC_SERVER
  prototype : cfg.prototype = NWC_PROTO_TCP ∨ cfg.prototype = NWC_PROTO_UDP

instance (cfg : NwcConfiguration) : Decidable cfg.Complete :=
  decidable_of_iff (cfg.ip ≠ none ∧ cfg.port ≠ 0 ∧ (cfg.mode = NWC_CLIENT ∨ cfg.mode = NWC_SERVER)
      ∧ (cfg.prototype = NWC_PROTO_TCP ∨ cfg.prototype = NWC_PROTO_UDP))
    ⟨fun h => ⟨h.1, h.2.1, h.2.2.1, h.2.2.2⟩, fun h => ⟨h.1, h.2, h.3, h.4⟩⟩

/-- The settings, each in words of its own. -/
def render (cfg : NwcConfiguration) : List Word :=
  [['-', if cfg.mode = NWC_CLIENT then 'c' else 's'],
    ['-', if cfg.prototype = NWC_PROTO_TCP then 't' else 'u'],
    "-a".toList, cfg.ip.getD [], "-p".toList, Nat.toDigits 10 cfg.port.toNat,
    "-o".toList, renderInt cfg.countSecs, "-b".toList, renderInt cfg.bandwidth]

variable {cfg : NwcConfiguration}

/-- An option of one letter. -/
theorem written_flag {d : Char} (hd : d ∈ "uthcs".toList) :
    Written (nwcOptions posixly) ['-', d] { calls := [.option d none], pending := none } := by
  have hall : ("uthcs".toList.all fun e =>
      e ≠ '-' ∧ shortOption (nwcOptions true).optstring e = some .no) = true := by decide
  obtain ⟨hne, hno⟩ := of_decide_eq_true (List.all_eq_true.mp hall d hd)
  exact .letters hne (.flag (s := { calls := [], pending := none }) hno .nil)

theorem written_separate {d : Char} (hd : d ∈ "paob".toList) :
    Written (nwcOptions posixly) ['-', d] { calls := [], pending := some d } := by
  have hall : ("paob".toList.all fun e =>
      e ≠ '-' ∧ shortOption (nwcOptions true).optstring e = some .required) = true := by decide
  obtain ⟨hne, hreq⟩ := of_decide_eq_true (List.all_eq_true.mp hall d hd)
  exact .letters hne (.separate hreq)

theorem render_spells (cfg : NwcConfiguration) :
    Spells (nwcOptions posixly) cfg.settings cfg.render := by
  refine .word (written_flag ?_) (.word (written_flag ?_) (.pair _ (written_separate (by decide))
    (.pair _ (written_separate (by decide)) (.pair _ (written_separate (by decide))
      (.pair _ (written_separate (by decide)) .done)))))
  · split <;> decide
  · split <;> decide

theorem filterMap_settings (hcfg : cfg.Complete) :
    cfg.settings.filterMap ipGiven = [cfg.ip] ∧ cfg.settings.filterMap portGiven = [cfg.port] ∧
      cfg.settings.filterMap modeGiven = [cfg.mode] ∧
      cfg.settings.filterMap prototypeGiven = [cfg.prototype] ∧
      cfg.settings.filterMap countSecsGiven = [cfg.countSecs] ∧
      cfg.settings.filterMap bandwidthGiven = [cfg.bandwidth] := by
  obtain ⟨ip, port, mode, prototype, countSecs, bandwidth⟩ := cfg
  obtain ⟨hip, -, hmode, hprototype⟩ := hcfg
  obtain ⟨ip, rfl⟩ := Option.ne_none_iff_exists'.mp hip
  have hport := congrArg (fun x => [x]) (atoi_port port)
  have hcount := congrArg (fun x => [x]) (atoi_renderInt countSecs)
  have hband := congrArg (fun x => [x]) (atoi_renderInt bandwidth)
  rcases hmode with hmode | hmode <;> rcases hprototype with hprototype | hprototype <;>
    (dsimp only at hmode hprototype; subst hmode hprototype;
      exact ⟨rfl, hport, rfl, rfl, hcount, hband⟩)

/-- In whatever order they are given. -/
theorem assigned_settings (hcfg : cfg.Complete) (hperm : cs.Perm cfg.settings) :
    config.assigned cs = cfg := by
  obtain ⟨hip, hport, hmode, hprototype, hcount, hband⟩ := filterMap_settings hcfg
  rw [assigned, lastOf_perm hperm hip, lastOf_perm hperm hport, lastOf_perm hperm hmode,
    lastOf_perm hperm hprototype, lastOf_perm hperm hcount, lastOf_perm hperm hband]

theorem Complete.withPrototype_eq (hcfg : cfg.Complete) : cfg.withPrototype = cfg := by
  have hne : cfg.prototype ≠ 0 := by
    rcases hcfg.prototype with h | h <;> rw [h] <;> decide
  rw [withPrototype, if_neg hne]

/-- What `main` starts with it, if there is a looper. -/
def launch (cfg : NwcConfiguration) (rc : Int) : Launch :=
  if rc ≠ 0 then .noLooper rc
  else if cfg.mode = NWC_CLIENT then .client cfg
  else .server cfg

theorem Complete.launch_eq (hcfg : cfg.Complete) (rc : Int) :
    (if cfg.mode = NWC_CLIENT then nwcClientMain rc cfg
      else if cfg.mode = NWC_SERVER then nwcServerMain rc cfg else .idle) = cfg.launch rc := by
  have hwith := hcfg.withPrototype_eq
  have hport : { cfg with port := if cfg.port = 0 then DEFAULT_PORT else cfg.port } = cfg := by
    rw [if_neg hcfg.port]
  unfold launch
  by_cases hmode : cfg.mode = NWC_CLIENT
  · rw [if_pos hmode, if_pos hmode, nwcClientMain, if_neg (not_or.mpr ⟨hcfg.ip, hcfg.port⟩), hwith]
    dsimp only
    rw [if_pos hcfg.prototype]
  · rw [if_neg hmode, if_neg hmode, if_pos (hcfg.mode.resolve_left hmode), nwcServerMain, hport,
      hwith]
    dsimp only
    rw [if_pos hcfg.prototype]

end NwcConfiguration

/--
**Every configuration can be asked for, and is what then runs.**

A complete configuration can be written as a command line, and every command line that gives its
settings, in any order and spelling, with operands in between, starts the checker with it, unless
the looper cannot be started.
-/
theorem nwcMain_settings (posixly : Bool) (rc : Int) (prog : Word) (cfg : NwcConfiguration)
    (hcfg : cfg.Complete) : (∃ ws, Spells (nwcOptions posixly) cfg.settings ws) ∧
      ∀ cs ws, Spells (nwcOptions posixly) cs ws → cs.Perm cfg.settings →
        nwcMain posixly rc (prog :: ws) = cfg.launch rc := by
  refine ⟨⟨_, cfg.render_spells⟩, fun cs ws hspells hperm => ?_⟩
  have hhelp : help ∉ cs := fun h => by
    have hin : help ∈ cfg.settings := hperm.mem_iff.mp h
    unfold NwcConfiguration.settings help at hin
    split at hin <;> split at hin <;> simp at hin
  have hne : cs ≠ [] := fun h => by
    rw [h] at hperm
    exact List.cons_ne_nil _ _ hperm.nil_eq.symm
  obtain ⟨w, l, rfl⟩ := List.exists_cons_of_ne_nil (hspells.ne_nil hne)
  have hparse : nwcConfigurationParse posixly .zero (prog :: w :: l) = some cfg := by
    rw [nwcConfigurationParse, List.tail_cons, hspells.calls_eq, foldlM_set hspells.listed,
      if_neg hhelp, NwcConfiguration.assigned_settings hcfg hperm]
  rw [nwcMain, if_neg (by simp), hparse]
  exact hcfg.launch_eq rc

/-- A client for ten seconds. -/
def tenSeconds : NwcConfiguration where
  ip := some "10.0.0.1".toList
  port := 9820
  mode := NWC_CLIENT
  prototype := NWC_PROTO_UDP
  countSecs := 10
  bandwidth := -1

theorem tenSeconds_launched : nwcMain false 0 (["nwchecker", "--addr=10.0.0.1", "-cp9820", "x",
    "-o", "10", "--band", "-1", "--udp"].map String.toList) = .client tenSeconds := by
  refine (nwcMain_settings false 0 _ tenSeconds (by decide)).2 _ _ (spells_iff.mpr ⟨rfl, ?_⟩) ?_
  · decide
  · decide

end Nwchecker
