import Baulk.Core.ErrorCode
import Baulk.Support.Cut
import Baulk.Support.Loop

/-!
# Parsing a command line

`ParseArgv::Execute` goes through the arguments with an index that the parsers of short and
long options move as well, when an option takes the next argument as its value.  It collects
the positional arguments and calls a receiver for each option, which may end the program.

What a command line means is said by `Reading`, without an index: each argument is
positional, an option, or the value of the option in front of it, and from the first
subcommand on they are taken as they are.  `Execute` succeeds exactly on the command lines
that have such a reading and whose options are all accepted.
-/

namespace Baulk

def ErrorCode.errSkipParse : Int := 0x4002
def ErrorCode.errParseBroken : Int := 0x4003

namespace Cli

open Support (Step loop loop_next loop_done loop_spec cut_cases dropWhile_ne_of_not_mem
  takeWhile_ne_append_cons dropWhile_ne_append_cons)

theorem lawfulBEq_wstring : LawfulBEq WString := inferInstance

attribute [local instance] lawfulBEq_wstring

inductive HasArgs where
  | requiredArgument
  | noArgument
  | optionalArgument
  deriving DecidableEq

/-- `option`. -/
structure CliOption where
  name : WString
  hasArgs : HasArgs
  val : Int

def CliOption.Allows (o : CliOption) (oa : Option WString) : Prop :=
  (o.hasArgs = .requiredArgument → oa ≠ none) ∧ (o.hasArgs = .noArgument → oa = none)

/-- The arguments of a call of the receiver.  The value of the option may be null. -/
structure Delivery where
  val : Int
  oa : Option WString
  raw : WString

/-- `Receiver`: it returns a boolean, or ends the program. -/
abbrev Receiver (σ ε : Type) := Delivery → σ → Except ε (Bool × σ)

/-- `ParseArgv` before `Execute`.  An argument is its text up to the terminator. -/
structure ParseArgv where
  rawargv : List WString
  options : List CliOption
  subcmds : List WString

/-- How `Execute` ends. -/
inductive Verdict (ε : Type) where
  | success
  | failure (ec : ErrorCode)
  | ended (how : ε)

/-- The state of `Execute`, with the calls of the receiver so far. -/
structure Progress (σ : Type) where
  index : Nat
  argv : List WString
  delivered : List Delivery
  state : σ

/-- What is found in the text of an option: the option, what is attached to it, its name in
messages, and the text without the dashes. -/
structure Found where
  option : CliOption
  oa : Option WString
  shown : WString
  raw : WString

def dash : WChar := 0x2D

def equalsSign : WChar := 0x3D

/-- `bela::make_error_code(bela::ErrParseBroken, ...)`. -/
def broken (message : WString) : ErrorCode :=
  ErrorCode.make ErrorCode.errParseBroken message

variable {σ ε : Type}

namespace ParseArgv

def shortOption (p : ParseArgv) (c : WChar) : Option CliOption :=
  p.options.find? fun o => o.val == (c.toNat : Int)

def longOption (p : ParseArgv) (name : WString) : Option CliOption :=
  p.options.find? fun o => o.name == name

/-- The first part of `parse_internal_short`, for the text `c :: t`. -/
def lookupShort (p : ParseArgv) (c : WChar) (t : WString) : Except ErrorCode Found :=
  if c = equalsSign then
    .error (broken (wide "unexpected argument '-" ++ c :: t ++ wide "'"))
  else
    match p.shortOption c with
    | none => .error (broken (wide "unregistered option '-" ++ c :: t ++ wide "'"))
    | some o =>
        .ok
          { option := o
            oa :=
              match t with
              | [] => none
              | d :: v => if d = equalsSign then some v else some (d :: v)
            shown := [dash, c]
            raw := c :: t }

/-- The end of the first part of `parse_internal_long`. -/
def registered (p : ParseArgv) (name : WString) (oa : Option WString) (raw : WString) :
    Except ErrorCode Found :=
  match p.longOption name with
  | none => .error (broken (wide "unregistered option '--" ++ name ++ wide "'"))
  | some o =>
      if o.val = -1 then .error (broken (wide "unregistered option '--" ++ name ++ wide "'"))
      else .ok { option := o, oa, shown := dash :: dash :: name, raw }

/-- The first part of `parse_internal_long`. -/
def lookupLong (p : ParseArgv) (a : WString) : Except ErrorCode Found :=
  match a.dropWhile (· ≠ equalsSign) with
  | [] => p.registered a none a
  | [_] => .error (broken (wide "unexpected argument '--" ++ a ++ wide "'"))
  | _ :: v => p.registered (a.takeWhile (· ≠ equalsSign)) (some v) a

/-- The first part of `parse_internal`, for the text behind the first dash. -/
def lookup (p : ParseArgv) : WString → Except ErrorCode Found
  | [] => .error (broken (wide "unexpected argument '-'"))
  | c :: t => if c = dash then p.lookupLong t else p.lookupShort c t

def call (v : Receiver σ ε) (d : Delivery) (st : Progress σ) : Verdict ε × Progress σ :=
  match v d st.state with
  | .error how => (.ended how, { st with delivered := st.delivered ++ [d] })
  | .ok (accepted, s) =>
      (if accepted then .success
        else .failure (ErrorCode.make ErrorCode.errSkipParse (wide "skip parse")),
        { st with delivered := st.delivered ++ [d], state := s })

/-- The second part of `parse_internal_short` and `parse_internal_long`, where a required
argument moves the index. -/
def deliver (p : ParseArgv) (v : Receiver σ ε) (f : Found) (st : Progress σ) :
    Verdict ε × Progress σ :=
  match f.oa, f.option.hasArgs with
  | some oa, .noArgument =>
      (.failure (broken (wide "option '" ++ f.shown ++ wide "' unexpected parameter: " ++ oa)),
        st)
  | none, .requiredArgument =>
      match p.rawargv[st.index + 1]? with
      | none => (.failure (broken (wide "option '" ++ f.shown ++ wide "' missing parameter")), st)
      | some oa => call v ⟨f.option.val, some oa, f.raw⟩ { st with index := st.index + 1 }
  | oa, _ => call v ⟨f.option.val, oa, f.raw⟩ st

def parseInternal (p : ParseArgv) (v : Receiver σ ε) (a : WString) (st : Progress σ) :
    Verdict ε × Progress σ :=
  match p.lookup a.tail with
  | .error ec => (.failure ec, st)
  | .ok f => p.deliver v f st

/-- The argument is empty or does not start with a dash. -/
def Positional (a : WString) : Prop :=
  a.head? ≠ some dash

instance (a : WString) : Decidable (Positional a) :=
  inferInstanceAs (Decidable (a.head? ≠ some dash))

/-- One round of `for (; index < argc; index++)`. -/
def executeBody (p : ParseArgv) (v : Receiver σ ε) (st : Progress σ) :
    Option (Step (Progress σ) (Verdict ε × Progress σ)) :=
  match p.rawargv[st.index]? with
  | none => some (.done (.success, st))
  | some a =>
      if Positional a then
        if a ∈ p.subcmds then
          some (.done (.success, { st with argv := st.argv ++ p.rawargv.drop st.index }))
        else some (.next { st with argv := st.argv ++ [a], index := st.index + 1 })
      else
        match p.parseInternal v a st with
        | (.success, st) => some (.next { st with index := st.index + 1 })
        | (.failure ec, st) => some (.done (.failure ec, st))
        | (.ended how, st) => some (.done (.ended how, st))

/-- `Execute`.  Each round moves the index. -/
def execute (p : ParseArgv) (v : Receiver σ ε) (s : σ) : Option (Verdict ε × Progress σ) :=
  loop (p.executeBody v) (p.rawargv.length + 1) ⟨0, [], [], s⟩

/-! ## What a command line means -/

/-- The argument is a text for the option, with an attached value or without one.  The
first option of the table with the character or the name counts. -/
inductive Spells (p : ParseArgv) : WString → CliOption → Option WString → Prop where
  | short {c : WChar} {o : CliOption} :
      c ≠ dash → c ≠ equalsSign → p.shortOption c = some o → Spells p [dash, c] o none
  | shortEquals {c : WChar} {o : CliOption} (v : WString) :
      c ≠ dash → c ≠ equalsSign → p.shortOption c = some o →
        Spells p (dash :: c :: equalsSign :: v) o (some v)
  | shortAttached {c d : WChar} {o : CliOption} (v : WString) :
      c ≠ dash → c ≠ equalsSign → d ≠ equalsSign → p.shortOption c = some o →
        Spells p (dash :: c :: d :: v) o (some (d :: v))
  | long {name : WString} {o : CliOption} :
      equalsSign ∉ name → p.longOption name = some o → Spells p (dash :: dash :: name) o none
  | longEquals {name v : WString} {o : CliOption} :
      equalsSign ∉ name → v ≠ [] → p.longOption name = some o →
        Spells p (dash :: dash :: (name ++ equalsSign :: v)) o (some v)

def optionText : WString → WString
  | _ :: c :: t => if c = dash then t else c :: t
  | _ => []

/-- An option is taken from the front of the arguments, with the next one as its value if
it needs one that is not attached. -/
inductive Takes (p : ParseArgv) : List WString → Delivery → List WString → Prop where
  | alone {a : WString} {o : CliOption} {oa : Option WString} (rest : List WString) :
      Spells p a o oa → o.Allows oa → Takes p (a :: rest) ⟨o.val, oa, optionText a⟩ rest
  | separate {a : WString} {o : CliOption} (value : WString) (rest : List WString) :
      Spells p a o none → o.hasArgs = .requiredArgument →
        Takes p (a :: value :: rest) ⟨o.val, some value, optionText a⟩ rest

/-- Each argument is read once: as a positional argument, as an option, or as the value of
the option in front of it.  From the first subcommand on everything is positional. -/
inductive Reading (p : ParseArgv) : List WString → List WString → List Delivery → Prop where
  | nil : Reading p [] [] []
  | subcommand {a : WString} (rest : List WString) :
      Positional a → a ∈ p.subcmds → Reading p (a :: rest) (a :: rest) []
  | positional {a : WString} {rest argv : List WString} {ds : List Delivery} :
      Positional a → a ∉ p.subcmds → Reading p rest argv ds → Reading p (a :: rest) (a :: argv) ds
  | option {raw rest argv : List WString} {d : Delivery} {ds : List Delivery} :
      Takes p raw d rest → Reading p rest argv ds → Reading p raw argv (d :: ds)

theorem Takes.cons {p : ParseArgv} {raw rest : List WString} {d : Delivery}
    (h : Takes p raw d rest) : ∃ a later, raw = a :: later := by
  cases h with
  | alone rest => exact ⟨_, rest, rfl⟩
  | separate value rest => exact ⟨_, value :: rest, rfl⟩

/-- The receiver accepts the calls one after the other. -/
def Accepts (v : Receiver σ ε) : List Delivery → σ → σ → Prop
  | [], s, s' => s = s'
  | d :: ds, s, s' => ∃ t, v d s = .ok (true, t) ∧ Accepts v ds t s'

/-- A call for an option of the table gives it what it may be given. -/
def Sound (p : ParseArgv) (d : Delivery) : Prop :=
  ∃ o ∈ p.options, d.val = o.val ∧ o.Allows d.oa

variable {p : ParseArgv}

/-! ## The text of an option -/

theorem Spells.mem {a : WString} {o : CliOption} {oa : Option WString} (h : Spells p a o oa) :
    o ∈ p.options := by
  cases h with
  | short _ _ ho => exact List.mem_of_find?_eq_some ho
  | shortEquals _ _ _ ho => exact List.mem_of_find?_eq_some ho
  | shortAttached _ _ _ _ ho => exact List.mem_of_find?_eq_some ho
  | long _ ho => exact List.mem_of_find?_eq_some ho
  | longEquals _ _ ho => exact List.mem_of_find?_eq_some ho

theorem Spells.not_positional {a : WString} {o : CliOption} {oa : Option WString}
    (h : Spells p a o oa) : ¬ Positional a := by
  cases h <;> exact fun hne => hne rfl

theorem registered_ok {name raw : WString} {oa : Option WString} {f : Found}
    (h : p.registered name oa raw = .ok f) :
    p.longOption name = some f.option ∧ f.oa = oa ∧ f.raw = raw := by
  unfold registered at h
  split at h
  · cases h
  · next o ho =>
    split at h <;> cases h
    exact ⟨ho, rfl, rfl⟩

theorem optionText_long (t : WString) : optionText (dash :: dash :: t) = t := by
  rw [optionText, if_pos rfl]

theorem optionText_short {c : WChar} (hc : c ≠ dash) (t : WString) :
    optionText (dash :: c :: t) = c :: t := by
  rw [optionText, if_neg hc]

theorem lookup_ok {a : WString} {f : Found} (ha : ¬ Positional a) (h : p.lookup a.tail = .ok f) :
    Spells p a f.option f.oa ∧ f.raw = optionText a := by
  obtain ⟨t, rfl⟩ : ∃ t, a = dash :: t := by
    cases a with
    | nil => exact absurd nofun ha
    | cons c t =>
        refine ⟨t, ?_⟩
        unfold Positional at ha
        rw [not_not, List.head?_cons, Option.some.injEq] at ha
        rw [ha]
  rw [List.tail_cons] at h
  cases t with
  | nil => cases h
  | cons c t =>
      change (if c = dash then p.lookupLong t else p.lookupShort c t) = _ at h
      split at h
      · next hc =>
        subst hc
        rw [optionText_long]
        unfold lookupLong at h
        rcases cut_cases t equalsSign with hnot | ⟨name, v, rfl, hname⟩
        · rw [dropWhile_ne_of_not_mem hnot] at h
          obtain ⟨ho, hoa, hraw⟩ := registered_ok h
          rw [hoa]
          exact ⟨.long hnot ho, hraw⟩
        · rw [takeWhile_ne_append_cons hname, dropWhile_ne_append_cons hname] at h
          cases v with
          | nil => cases h
          | cons x v =>
              obtain ⟨ho, hoa, hraw⟩ := registered_ok h
              rw [hoa]
              exact ⟨.longEquals hname (List.cons_ne_nil x v) ho, hraw⟩
      · next hc =>
        rw [optionText_short hc]
        unfold lookupShort at h
        split at h
        · cases h
        next heq =>
        split at h
        · cases h
        next o ho =>
        cases h
        refine ⟨?_, rfl⟩
        cases t with
        | nil => exact .short hc heq ho
        | cons d v =>
            by_cases hd : d = equalsSign
            · subst hd
              dsimp only
              rw [if_pos rfl]
              exact .shortEquals v hc heq ho
            · dsimp only
              rw [if_neg hd]
              exact .shortAttached v hc heq hd ho

theorem lookup_of_spells (hvals : ∀ o ∈ p.options, o.val ≠ -1) {a : WString} {o : CliOption}
    {oa : Option WString} (h : Spells p a o oa) :
    ∃ shown, p.lookup a.tail = .ok ⟨o, oa, shown, optionText a⟩ := by
  have hval := hvals o h.mem
  have hshort : ∀ (c : WChar) (t : WString), c ≠ dash →
      p.lookup (dash :: c :: t).tail = p.lookupShort c t := fun c t hc => if_neg hc
  have hlong : ∀ t : WString, p.lookup (dash :: dash :: t).tail = p.lookupLong t := by
    intro t
    rw [List.tail_cons, lookup, if_pos rfl]
  have hregistered : ∀ (name raw : WString) (oa : Option WString), p.longOption name = some o →
      p.registered name oa raw = .ok ⟨o, oa, dash :: dash :: name, raw⟩ := by
    intro name raw oa ho
    unfold registered
    rw [ho]
    exact if_neg hval
  cases h with
  | @short c _ hc heq ho =>
      rw [hshort c [] hc, optionText_short hc]
      unfold lookupShort
      rw [if_neg heq, ho]
      exact ⟨_, rfl⟩
  | @shortEquals c _ v hc heq ho =>
      rw [hshort c _ hc, optionText_short hc]
      unfold lookupShort
      rw [if_neg heq, ho]
      dsimp only
      rw [if_pos rfl]
      exact ⟨_, rfl⟩
  | @shortAttached c d _ v hc heq hd ho =>
      rw [hshort c _ hc, optionText_short hc]
      unfold lookupShort
      rw [if_neg heq, ho]
      dsimp only
      rw [if_neg hd]
      exact ⟨_, rfl⟩
  | @long name _ hname ho =>
      rw [hlong, optionText_long]
      unfold lookupLong
      rw [dropWhile_ne_of_not_mem hname]
      exact ⟨_, hregistered name name none ho⟩
  | @longEquals name v _ hname hv ho =>
      rw [hlong, optionText_long]
      obtain ⟨x, v, rfl⟩ := List.exists_cons_of_ne_nil hv
      unfold lookupLong
      rw [takeWhile_ne_append_cons hname, dropWhile_ne_append_cons hname]
      exact ⟨_, hregistered name _ _ ho⟩

/-! ## One call of the receiver -/

/-- An option is refused, or the receiver is called with what the option allows. -/
theorem deliver_cases (v : Receiver σ ε) (f : Found) (st : Progress σ) :
    (∃ ec, p.deliver v f st = (.failure ec, st)) ∨
      f.option.Allows f.oa ∧ p.deliver v f st = call v ⟨f.option.val, f.oa, f.raw⟩ st ∨
      ∃ value, f.oa = none ∧ f.option.hasArgs = .requiredArgument ∧
        p.rawargv[st.index + 1]? = some value ∧
        p.deliver v f st =
          call v ⟨f.option.val, some value, f.raw⟩ { st with index := st.index + 1 } := by
  unfold deliver CliOption.Allows
  split
  · exact .inl ⟨_, rfl⟩
  · next hoa hargs =>
    cases hnext : p.rawargv[st.index + 1]? with
    | none => exact .inl ⟨_, rfl⟩
    | some value => exact .inr (.inr ⟨value, hoa, hargs, rfl, rfl⟩)
  · next hno hrequired =>
    refine .inr (.inl ⟨⟨fun hargs hoa => hrequired hoa hargs, fun hargs => ?_⟩, rfl⟩)
    cases hoa : f.oa with
    | none => rfl
    | some oa => exact absurd hargs (hno oa hoa)

theorem deliver_of_allows (v : Receiver σ ε) {f : Found} (st : Progress σ)
    (h : f.option.Allows f.oa) :
    p.deliver v f st = call v ⟨f.option.val, f.oa, f.raw⟩ st := by
  unfold deliver
  split
  · next hoa hargs => exact absurd (h.2 hargs) (by rw [hoa]; nofun)
  · next hoa hargs => exact absurd hoa (h.1 hargs)
  · rfl

theorem deliver_of_separate (v : Receiver σ ε) {f : Found} {st : Progress σ} {value : WString}
    (hoa : f.oa = none) (hargs : f.option.hasArgs = .requiredArgument)
    (hnext : p.rawargv[st.index + 1]? = some value) :
    p.deliver v f st =
      call v ⟨f.option.val, some value, f.raw⟩ { st with index := st.index + 1 } := by
  unfold deliver
  rw [hoa, hargs]
  dsimp only
  rw [hnext]

theorem call_delivered (v : Receiver σ ε) (d : Delivery) (st : Progress σ) :
    (call v d st).2.delivered = st.delivered ++ [d] := by
  unfold call
  split <;> rfl

theorem call_success {v : Receiver σ ε} {d : Delivery} {st st' : Progress σ}
    (h : call v d st = (.success, st')) :
    ∃ t, v d st.state = .ok (true, t) ∧
      st' = { st with delivered := st.delivered ++ [d], state := t } := by
  unfold call at h
  split at h
  · cases h
  · next accepted t hv =>
    rw [Prod.mk.injEq] at h
    obtain ⟨hverdict, rfl⟩ := h
    cases accepted with
    | false => cases hverdict
    | true => exact ⟨t, hv, rfl⟩

theorem call_of_accepted {v : Receiver σ ε} {d : Delivery} {st : Progress σ} {t : σ}
    (h : v d st.state = .ok (true, t)) :
    call v d st = (.success, { st with delivered := st.delivered ++ [d], state := t }) := by
  unfold call
  rw [h]
  rfl

theorem drop_succ {l : List WString} {i : Nat} {a : WString} {rest : List WString}
    (h : l.drop i = a :: rest) : l.drop (i + 1) = rest := by
  rw [← List.drop_drop, h, List.drop_one, List.tail_cons]

theorem parseInternal_success {v : Receiver σ ε} {a : WString} {rest : List WString}
    {st st' : Progress σ} (hrest : p.rawargv.drop st.index = a :: rest) (ha : ¬ Positional a)
    (h : p.parseInternal v a st = (.success, st')) :
    ∃ d, Takes p (a :: rest) d (p.rawargv.drop (st'.index + 1)) ∧
      v d st.state = .ok (true, st'.state) ∧ st'.argv = st.argv ∧
      st'.delivered = st.delivered ++ [d] := by
  have hdrop := drop_succ hrest
  unfold parseInternal at h
  split at h
  · cases h
  next f hfound =>
  obtain ⟨hspells, hraw⟩ := lookup_ok ha hfound
  rcases deliver_cases v f st with
    ⟨ec, hfail⟩ | ⟨hallows, hcall⟩ | ⟨value, hoa, hargs, hnext, hcall⟩
  · rw [hfail] at h
    cases h
  · rw [hcall] at h
    obtain ⟨t, hv, rfl⟩ := call_success h
    refine ⟨_, ?_, hv, rfl, rfl⟩
    rw [hraw]
    dsimp only
    rw [hdrop]
    exact .alone rest hspells hallows
  · rw [hcall] at h
    obtain ⟨t, hv, rfl⟩ := call_success h
    refine ⟨_, ?_, hv, rfl, rfl⟩
    rw [hraw]
    dsimp only
    obtain ⟨later, rfl⟩ : ∃ later, rest = value :: later := by
      rw [← hdrop, List.drop_eq_getElem?_toList_append, hnext]
      exact ⟨_, rfl⟩
    rw [drop_succ hdrop]
    rw [hoa] at hspells
    exact .separate value later hspells hargs

theorem parseInternal_of_takes (hvals : ∀ o ∈ p.options, o.val ≠ -1) {v : Receiver σ ε}
    {a : WString} {rest later : List WString} {d : Delivery} {st : Progress σ} {t : σ}
    (hrest : p.rawargv.drop st.index = a :: rest) (h : Takes p (a :: rest) d later)
    (hv : v d st.state = .ok (true, t)) :
    ¬ Positional a ∧ ∃ st', p.parseInternal v a st = (.success, st') ∧
      p.rawargv.drop (st'.index + 1) = later ∧ st.index ≤ st'.index ∧ st'.argv = st.argv ∧
      st'.delivered = st.delivered ++ [d] ∧ st'.state = t := by
  have hdrop := drop_succ hrest
  unfold parseInternal
  cases h with
  | @alone _ o oa _ hspells hallows =>
      obtain ⟨shown, hfound⟩ := lookup_of_spells hvals hspells
      refine ⟨hspells.not_positional,
        { st with delivered := st.delivered ++ [⟨o.val, oa, optionText a⟩], state := t },
        ?_, hdrop, Nat.le_refl _, rfl, rfl, rfl⟩
      rw [hfound]
      exact (deliver_of_allows v st hallows).trans (call_of_accepted hv)
  | @separate _ o value _ hspells hargs =>
      obtain ⟨shown, hfound⟩ := lookup_of_spells hvals hspells
      have hnext : p.rawargv[st.index + 1]? = some value := by
        rw [← List.head?_drop, hdrop, List.head?_cons]
      refine ⟨hspells.not_positional,
        { st with
          index := st.index + 1
          delivered := st.delivered ++ [⟨o.val, some value, optionText a⟩]
          state := t },
        ?_, ?_, Nat.le_succ _, rfl, rfl, rfl⟩
      · rw [hfound]
        exact (deliver_of_separate v rfl hargs hnext).trans (call_of_accepted hv)
      · exact drop_succ hdrop

theorem call_index (v : Receiver σ ε) (d : Delivery) (st : Progress σ) :
    (call v d st).2.index = st.index := by
  unfold call
  split <;> rfl

theorem call_sound {v : Receiver σ ε} {d' : Delivery} {st : Progress σ} (hsound : Sound p d')
    (hall : ∀ d ∈ st.delivered, Sound p d) : ∀ d ∈ (call v d' st).2.delivered, Sound p d := by
  intro d hd
  rw [call_delivered, List.mem_append, List.mem_singleton] at hd
  rcases hd with hd | rfl
  · exact hall d hd
  · exact hsound

/-- The index does not go back, and what the receiver is called with is sound. -/
theorem parseInternal_keeps (v : Receiver σ ε) {a : WString} (ha : ¬ Positional a)
    (st : Progress σ) :
    st.index ≤ (p.parseInternal v a st).2.index ∧
      ((∀ d ∈ st.delivered, Sound p d) →
        ∀ d ∈ (p.parseInternal v a st).2.delivered, Sound p d) := by
  unfold parseInternal
  split
  · exact ⟨Nat.le_refl _, id⟩
  next f hfound =>
  obtain ⟨hspells, -⟩ := lookup_ok ha hfound
  rcases deliver_cases v f st with
    ⟨ec, hfail⟩ | ⟨hallows, hdeliver⟩ | ⟨value, hoa, hargs, -, hdeliver⟩
  · rw [hfail]
    exact ⟨Nat.le_refl _, id⟩
  · rw [hdeliver, call_index]
    exact ⟨Nat.le_refl _, call_sound ⟨_, hspells.mem, rfl, hallows⟩⟩
  · have hno : f.option.hasArgs ≠ .noArgument := by
      rw [hargs]
      nofun
    have hallows : f.option.Allows (some value) :=
      And.intro (fun _ => Option.some_ne_none value) fun h => absurd h hno
    have hsound : Sound p ⟨f.option.val, some value, f.raw⟩ := ⟨_, hspells.mem, rfl, hallows⟩
    rw [hdeliver, call_index]
    exact ⟨Nat.le_succ _, fun hall => call_sound hsound hall⟩

/-! ## One round -/

theorem executeBody_nil {v : Receiver σ ε} {st : Progress σ}
    (hrest : p.rawargv.drop st.index = []) :
    p.executeBody v st = some (.done (.success, st)) := by
  have hget : p.rawargv[st.index]? = none := by rw [← List.head?_drop, hrest, List.head?_nil]
  unfold executeBody
  rw [hget]

theorem executeBody_subcommand {v : Receiver σ ε} {st : Progress σ} {a : WString}
    {rest : List WString} (hrest : p.rawargv.drop st.index = a :: rest) (ha : Positional a)
    (hsub : a ∈ p.subcmds) :
    p.executeBody v st = some (.done (.success, { st with argv := st.argv ++ a :: rest })) := by
  have hget : p.rawargv[st.index]? = some a := by rw [← List.head?_drop, hrest, List.head?_cons]
  unfold executeBody
  rw [hget]
  dsimp only
  rw [if_pos ha, if_pos hsub, hrest]

theorem executeBody_positional {v : Receiver σ ε} {st : Progress σ} {a : WString}
    {rest : List WString} (hrest : p.rawargv.drop st.index = a :: rest) (ha : Positional a)
    (hsub : a ∉ p.subcmds) :
    p.executeBody v st =
      some (.next { st with argv := st.argv ++ [a], index := st.index + 1 }) := by
  have hget : p.rawargv[st.index]? = some a := by rw [← List.head?_drop, hrest, List.head?_cons]
  unfold executeBody
  rw [hget]
  dsimp only
  rw [if_pos ha, if_neg hsub]

/-- How a round with an option ends. -/
def afterOption : Verdict ε × Progress σ → Step (Progress σ) (Verdict ε × Progress σ)
  | (.success, st) => .next { st with index := st.index + 1 }
  | (.failure ec, st) => .done (.failure ec, st)
  | (.ended how, st) => .done (.ended how, st)

theorem executeBody_option {v : Receiver σ ε} {st : Progress σ} {a : WString}
    {rest : List WString} (hrest : p.rawargv.drop st.index = a :: rest) (ha : ¬ Positional a) :
    p.executeBody v st = some (afterOption (p.parseInternal v a st)) := by
  have hget : p.rawargv[st.index]? = some a := by rw [← List.head?_drop, hrest, List.head?_cons]
  unfold executeBody
  rw [hget]
  dsimp only
  rw [if_neg ha]
  rcases p.parseInternal v a st with ⟨_ | _ | _, st'⟩ <;> rfl

/-! ## The whole command line -/

theorem executeBody_total (v : Receiver σ ε) {fuel : Nat} {st : Progress σ}
    (hfuel : p.rawargv.length - st.index < fuel) :
    ∃ r, loop (p.executeBody v) fuel st = some r := by
  refine Support.loop_returns (B := fun m st => p.rawargv.length - st.index = m) ?_ rfl hfuel
  rintro m st rfl
  cases hrest : p.rawargv.drop st.index with
  | nil => exact ⟨_, executeBody_nil hrest, nofun⟩
  | cons a rest =>
      have hlength := congrArg List.length hrest
      rw [List.length_drop, List.length_cons] at hlength
      by_cases ha : Positional a
      · by_cases hsub : a ∈ p.subcmds
        · exact ⟨_, executeBody_subcommand hrest ha hsub, nofun⟩
        · refine ⟨_, executeBody_positional hrest ha hsub, ?_⟩
          rintro _ ⟨⟩
          exact ⟨_, by dsimp only; omega, rfl⟩
      · have hindex := (parseInternal_keeps (p := p) v ha st).1
        refine ⟨_, executeBody_option hrest ha, ?_⟩
        rintro st' hnext
        rcases hparsed : p.parseInternal v a st with ⟨_ | _ | _, st₁⟩ <;>
          rw [hparsed] at hnext hindex <;> cases hnext
        exact ⟨_, by dsimp only at hindex ⊢; omega, rfl⟩

theorem reading_of_success {v : Receiver σ ε} {fuel : Nat} {st r : Progress σ}
    (h : loop (p.executeBody v) fuel st = some (.success, r)) :
    ∃ argv ds, Reading p (p.rawargv.drop st.index) argv ds ∧ r.argv = st.argv ++ argv ∧
      r.delivered = st.delivered ++ ds ∧ Accepts v ds st.state r.state := by
  induction fuel generalizing st with
  | zero => cases h
  | succ fuel ih =>
      cases hrest : p.rawargv.drop st.index with
      | nil =>
          rw [loop_done (executeBody_nil hrest)] at h
          cases h
          exact ⟨[], [], .nil, (List.append_nil _).symm, (List.append_nil _).symm, rfl⟩
      | cons a rest =>
          by_cases ha : Positional a
          · by_cases hsub : a ∈ p.subcmds
            · rw [loop_done (executeBody_subcommand hrest ha hsub)] at h
              cases h
              exact ⟨a :: rest, [], .subcommand rest ha hsub, rfl, (List.append_nil _).symm, rfl⟩
            · rw [loop_next (executeBody_positional hrest ha hsub)] at h
              obtain ⟨argv, ds, hreading, hargv, hds, haccepts⟩ := ih h
              dsimp only at hreading hargv hds haccepts
              rw [drop_succ hrest] at hreading
              refine ⟨a :: argv, ds, .positional ha hsub hreading, ?_, hds, haccepts⟩
              rw [hargv, List.append_assoc, List.singleton_append]
          · have hbody := executeBody_option (v := v) hrest ha
            rcases hparsed : p.parseInternal v a st with ⟨_ | _ | _, st₁⟩ <;>
              rw [hparsed] at hbody
            · rw [loop_next hbody] at h
              obtain ⟨d, htakes, hv, hargv₁, hds₁⟩ := parseInternal_success hrest ha hparsed
              obtain ⟨argv, ds, hreading, hargv, hds, haccepts⟩ := ih h
              dsimp only at hreading hargv hds haccepts
              refine ⟨argv, d :: ds, .option htakes hreading, ?_, ?_, st₁.state, hv, haccepts⟩
              · rw [hargv, hargv₁]
              · rw [hds, hds₁, List.append_assoc, List.singleton_append]
            · rw [loop_done hbody] at h
              cases h
            · rw [loop_done hbody] at h
              cases h

/-- A command line with a reading is parsed if the receiver accepts its options. -/
theorem success_of_reading (hvals : ∀ o ∈ p.options, o.val ≠ -1) {v : Receiver σ ε}
    {raw argv : List WString} {ds : List Delivery} (h : Reading p raw argv ds) {fuel : Nat}
    {st : Progress σ} {s : σ} (hraw : p.rawargv.drop st.index = raw)
    (haccepts : Accepts v ds st.state s) (hfuel : p.rawargv.length - st.index < fuel) :
    ∃ r, loop (p.executeBody v) fuel st = some (.success, r) ∧ r.argv = st.argv ++ argv ∧
      r.delivered = st.delivered ++ ds := by
  induction h generalizing fuel st with
  | nil =>
      obtain ⟨fuel, rfl⟩ : ∃ f, fuel = f + 1 := ⟨fuel - 1, by omega⟩
      exact ⟨_, loop_done (executeBody_nil hraw), (List.append_nil _).symm,
        (List.append_nil _).symm⟩
  | subcommand rest ha hsub =>
      obtain ⟨fuel, rfl⟩ : ∃ f, fuel = f + 1 := ⟨fuel - 1, by omega⟩
      exact ⟨_, loop_done (executeBody_subcommand hraw ha hsub), rfl, (List.append_nil _).symm⟩
  | @positional a _ _ _ ha hsub _ ih =>
      obtain ⟨fuel, rfl⟩ : ∃ f, fuel = f + 1 := ⟨fuel - 1, by omega⟩
      have hlength := congrArg List.length hraw
      rw [List.length_drop, List.length_cons] at hlength
      rw [loop_next (executeBody_positional hraw ha hsub)]
      obtain ⟨r, hr, hargv, hds⟩ := @ih fuel
        { st with argv := st.argv ++ [a], index := st.index + 1 } (drop_succ hraw) haccepts
        (by dsimp only; omega)
      refine ⟨r, hr, ?_, hds⟩
      rw [hargv, List.append_assoc, List.singleton_append]
  | option htakes _ ih =>
      obtain ⟨fuel, rfl⟩ : ∃ f, fuel = f + 1 := ⟨fuel - 1, by omega⟩
      obtain ⟨t, hv, hlater⟩ := haccepts
      obtain ⟨a, rest, rfl⟩ := htakes.cons
      obtain ⟨ha, st', hparsed, hrest, hindex, hargv', hds', hstate⟩ :=
        parseInternal_of_takes hvals hraw htakes hv
      have hbody := executeBody_option (v := v) hraw ha
      have hlength := congrArg List.length hraw
      rw [List.length_drop, List.length_cons] at hlength
      rw [hparsed] at hbody
      rw [loop_next hbody]
      obtain ⟨r, hr, hargv, hds⟩ := @ih fuel { st' with index := st'.index + 1 } hrest
        (hstate ▸ hlater) (by dsimp only; omega)
      refine ⟨r, hr, ?_, ?_⟩
      · rw [hargv, hargv']
      · rw [hds, hds', List.append_assoc, List.singleton_append]

theorem sound_of_loop {v : Receiver σ ε} {fuel : Nat} {st : Progress σ}
    {r : Verdict ε × Progress σ} (h : loop (p.executeBody v) fuel st = some r)
    (hsound : ∀ d ∈ st.delivered, Sound p d) : ∀ d ∈ r.2.delivered, Sound p d := by
  refine loop_spec (I := fun st => ∀ d ∈ st.delivered, Sound p d)
    (Q := fun r => ∀ d ∈ r.2.delivered, Sound p d) ?_ hsound h
  intro st step hsound hstep
  cases hrest : p.rawargv.drop st.index with
  | nil =>
      rw [executeBody_nil hrest] at hstep
      cases hstep
      exact hsound
  | cons a rest =>
      by_cases ha : Positional a
      · by_cases hsub : a ∈ p.subcmds
        · rw [executeBody_subcommand hrest ha hsub] at hstep
          cases hstep
          exact hsound
        · rw [executeBody_positional hrest ha hsub] at hstep
          cases hstep
          exact hsound
      · have hkeeps := (parseInternal_keeps (p := p) v ha st).2 hsound
        rw [executeBody_option hrest ha] at hstep
        rcases hparsed : p.parseInternal v a st with ⟨_ | _ | _, st₁⟩ <;>
          rw [hparsed] at hstep hkeeps <;> cases hstep <;> exact hkeeps

/-- A receiver that ends the program was called to do so. -/
theorem ended_of_loop {v : Receiver σ ε} {fuel : Nat} {st r : Progress σ} {how : ε}
    (h : loop (p.executeBody v) fuel st = some (.ended how, r)) :
    ∃ d ∈ r.delivered, ∃ s, v d s = .error how := by
  have hcall : ∀ {d : Delivery} {st r : Progress σ}, call v d st = (.ended how, r) →
      ∃ d ∈ r.delivered, ∃ s, v d s = .error how := by
    intro d st r h
    unfold call at h
    split at h
    · next how' hv =>
      cases h
      exact ⟨d, List.mem_append_right _ (List.mem_singleton_self d), st.state, hv⟩
    · next accepted _ _ => cases accepted <;> cases h
  refine loop_spec (I := fun _ => True)
    (Q := fun r => ∀ st, r = (.ended how, st) → ∃ d ∈ st.delivered, ∃ s, v d s = .error how)
    ?_ trivial h r rfl
  rintro st step - hstep
  cases hrest : p.rawargv.drop st.index with
  | nil =>
      rw [executeBody_nil hrest] at hstep
      cases hstep
      exact nofun
  | cons a rest =>
      by_cases ha : Positional a
      · by_cases hsub : a ∈ p.subcmds
        · rw [executeBody_subcommand hrest ha hsub] at hstep
          cases hstep
          exact nofun
        · rw [executeBody_positional hrest ha hsub] at hstep
          cases hstep
          trivial
      · rw [executeBody_option hrest ha] at hstep
        rcases hparsed : p.parseInternal v a st with ⟨_ | _ | how', st₁⟩ <;>
          rw [hparsed] at hstep <;> cases hstep
        · trivial
        · exact nofun
        · rintro st₂ ⟨⟩
          unfold parseInternal at hparsed
          split at hparsed
          · cases hparsed
          next f _ =>
          rcases deliver_cases v f st with ⟨ec, hfail⟩ | ⟨-, hdeliver⟩ | ⟨value, -, -, -, hdeliver⟩
          · rw [hfail] at hparsed
            cases hparsed
          · exact hcall (hdeliver.symm.trans hparsed)
          · exact hcall (hdeliver.symm.trans hparsed)

/-- What is expected of `Execute`: it succeeds exactly on a command line with a reading whose
options are accepted, with the arguments and the calls of that reading, and no option is ever
given what it does not allow. -/
def Reads (p : ParseArgv) (v : Receiver σ ε) (s : σ) : Prop :=
  ∃ verdict r, p.execute v s = some (verdict, r) ∧
    (verdict = .success →
      Reading p p.rawargv r.argv r.delivered ∧ Accepts v r.delivered s r.state) ∧
    (∀ argv ds s', Reading p p.rawargv argv ds → Accepts v ds s s' →
      verdict = .success ∧ r.argv = argv ∧ r.delivered = ds) ∧
    ∀ d ∈ r.delivered, Sound p d

theorem execute_reads (p : ParseArgv) (hvals : ∀ o ∈ p.options, o.val ≠ -1)
    (v : Receiver σ ε) (s : σ) : Reads p v s := by
  have hfuel : p.rawargv.length - 0 < p.rawargv.length + 1 := by omega
  have htotal : ∃ r, p.execute v s = some r := executeBody_total v hfuel
  obtain ⟨⟨verdict, r⟩, hr⟩ := htotal
  refine ⟨verdict, r, hr, ?_, ?_, sound_of_loop hr nofun⟩
  · rintro rfl
    obtain ⟨argv, ds, hreading, hargv, hds, haccepts⟩ := reading_of_success hr
    rw [List.nil_append] at hargv hds
    rw [hargv, hds]
    exact ⟨hreading, haccepts⟩
  · intro argv ds s' hreading haccepts
    have hsuccess : ∃ r, p.execute v s = some (.success, r) ∧ r.argv = [] ++ argv ∧
        r.delivered = [] ++ ds := success_of_reading hvals hreading rfl haccepts hfuel
    obtain ⟨r', hr', hargv, hds⟩ := hsuccess
    rw [hr] at hr'
    cases hr'
    exact ⟨rfl, hargv, hds⟩

/-- A command line with a value, a flag and a subcommand. -/
def sampleArgv : ParseArgv where
  rawargv := [wide "--profile", wide "a", wide "-F", wide "bucket", wide "-F"]
  options := [⟨wide "force", .noArgument, 0x46⟩, ⟨wide "profile", .requiredArgument, 0x50⟩]
  subcmds := [wide "bucket"]

theorem execute_reads_sample :
    Reads sampleArgv (fun d ds => (.ok (true, d :: ds) : Except Empty _)) [] :=
  execute_reads sampleArgv (by decide) _ []

end ParseArgv

end Cli

end Baulk
