import Baulk.Cli.ParseArgv
import Baulk.Support.Overwrite

/-!
# The options of baulk

`ParseArgv` of baulk folds one receiver over the options of a command line, which sets the
global settings.  Each option sets its own, except that the case of `--force-delete` runs on
into the one of `--github-proxy`, with the value that it does not have.  When all options are
read `--verbose` turns `--quiet` off.
-/

namespace Baulk.Cli

open Support (foldl_last)

/-- The global settings: the variables of the program, and those of
`HttpClient::DefaultClient()`. -/
structure Settings where
  profile : WString := []
  debugMode : Bool := false
  quietMode : Bool := false
  forceMode : Bool := false
  forceDelete : Bool := false
  traceMode : Bool := false
  clientDebugMode : Bool := false
  insecureMode : Bool := false
  userAgent : WString := wide "Wget/7.0 (Baulk)"
  proxyURL : WString := []
  ghProxy : WString := []
  deriving DecidableEq

/-- How the receiver ends the program: by `exit(0)`, or by making a view of a null
pointer. -/
inductive Stop where
  | exited
  | nullArgument
  deriving DecidableEq

/-- `SetGhProxy`. -/
def withSlash (url : WString) : WString :=
  if [0x2F] <:+ url then url else url ++ [0x2F]

/-- The value of an option is used. -/
def useArgument (oa : Option WString) (set : WString → Settings) :
    Except Stop (Bool × Settings) :=
  match oa with
  | none => .error .nullArgument
  | some text => .ok (true, set text)

def receiver : Receiver Settings Stop := fun d s =>
  if d.val = 0x68 then .error .exited -- 'h'
  else if d.val = 0x76 then .error .exited -- 'v'
  else if d.val = 0x50 then useArgument d.oa fun text => { s with profile := text } -- 'P'
  else if d.val = 0x56 then .ok (true, { s with debugMode := true, clientDebugMode := true }) -- 'V'
  else if d.val = 0x51 then .ok (true, { s with quietMode := true }) -- 'Q'
  else if d.val = 0x46 then .ok (true, { s with forceMode := true }) -- 'F'
  else if d.val = 0x54 then .ok (true, { s with traceMode := true }) -- 'T'
  else if d.val = 0x6B then .ok (true, { s with insecureMode := true }) -- 'k'
  else if d.val = 0x41 then useArgument d.oa fun text => { s with userAgent := text } -- 'A'
  else if d.val = 1001 then useArgument d.oa fun text => { s with proxyURL := text }
  else if d.val = 1002 then
    -- There is no `break` before the next case.
    useArgument d.oa fun text => { s with forceDelete := true, ghProxy := withSlash text }
  else if d.val = 1003 then useArgument d.oa fun text => { s with ghProxy := withSlash text }
  else .ok (false, s)

def baulkOptions : List CliOption :=
  [⟨wide "help", .noArgument, 0x68⟩,
    ⟨wide "version", .noArgument, 0x76⟩,
    ⟨wide "verbose", .noArgument, 0x56⟩,
    ⟨wide "quiet", .noArgument, 0x51⟩,
    ⟨wide "force", .noArgument, 0x46⟩,
    ⟨wide "profile", .requiredArgument, 0x50⟩,
    ⟨wide "user-agent", .requiredArgument, 0x41⟩,
    ⟨wide "insecure", .noArgument, 0x6B⟩,
    ⟨wide "https-proxy", .requiredArgument, 1001⟩,
    ⟨wide "force-delete", .noArgument, 1002⟩,
    ⟨wide "github-proxy", .requiredArgument, 1003⟩,
    ⟨wide "trace", .noArgument, 0x54⟩]

/-- `pa`, for the arguments behind the name of the program. -/
def baulkParser (raw : List WString) : ParseArgv where
  rawargv := raw
  options := baulkOptions
  subcmds := [wide "bucket"]

/-- What comes after the options were read. -/
def settle (s : Settings) : Settings :=
  if s.debugMode && s.quietMode then { s with quietMode := false } else s

/-- `ParseArgv` up to the choice of the command: the command with its arguments, and the
settings. -/
def parseOptions (raw : List WString) (s : Settings) : Option (List WString × Settings) :=
  match (baulkParser raw).execute receiver s with
  | some (.success, r) => some (r.argv, settle r.state)
  | _ => none

/-! ## The last occurrence of an option -/

/-- The value of a text option, in a call for it. -/
def textOf (val : Int) (d : Delivery) : Option WString :=
  if d.val = val then d.oa else none

/-- The value of a flag, in a call for it. -/
def flagOf (val : Int) (d : Delivery) : Option Bool :=
  if d.val = val then some true else none

/-- The value that the last call for an option gives, or the one from before. -/
def lastValue {α : Type} (value : Delivery → Option α) (ds : List Delivery) (initial : α) : α :=
  (ds.filterMap value).getLast?.getD initial

/-- Every setting has the value that the last call for its option gives. -/
structure Follows (s s' : Settings) (ds : List Delivery) : Prop where
  profile : s'.profile = lastValue (textOf 0x50) ds s.profile
  debugMode : s'.debugMode = lastValue (flagOf 0x56) ds s.debugMode
  clientDebugMode : s'.clientDebugMode = lastValue (flagOf 0x56) ds s.clientDebugMode
  quietMode : s'.quietMode = lastValue (flagOf 0x51) ds s.quietMode
  forceMode : s'.forceMode = lastValue (flagOf 0x46) ds s.forceMode
  forceDelete : s'.forceDelete = lastValue (flagOf 1002) ds s.forceDelete
  traceMode : s'.traceMode = lastValue (flagOf 0x54) ds s.traceMode
  insecureMode : s'.insecureMode = lastValue (flagOf 0x6B) ds s.insecureMode
  userAgent : s'.userAgent = lastValue (textOf 0x41) ds s.userAgent
  proxyURL : s'.proxyURL = lastValue (textOf 1001) ds s.proxyURL
  ghProxy : s'.ghProxy = lastValue (fun d => (textOf 1003 d).map withSlash) ds s.ghProxy

theorem lastValue_nil {α : Type} (value : Delivery → Option α) (initial : α) :
    lastValue value [] initial = initial :=
  rfl

theorem lastValue_cons {α : Type} (value : Delivery → Option α) (d : Delivery)
    (ds : List Delivery) (initial : α) :
    lastValue value (d :: ds) initial = lastValue value ds ((value d).getD initial) := by
  unfold lastValue
  rw [← foldl_last, ← foldl_last, List.foldl_cons]

theorem Follows.nil (s : Settings) : Follows s s [] := by
  constructor <;> rfl

theorem Follows.cons {s t s' : Settings} {d : Delivery} {ds : List Delivery}
    (hfirst : Follows s t [d]) (hlater : Follows t s' ds) : Follows s s' (d :: ds) := by
  have hone : ∀ {α : Type} (value : Delivery → Option α) (initial : α),
      lastValue value [d] initial = (value d).getD initial := fun value initial => by
    rw [lastValue_cons, lastValue_nil]
  constructor
  · rw [hlater.profile, hfirst.profile, hone, lastValue_cons]
  · rw [hlater.debugMode, hfirst.debugMode, hone, lastValue_cons]
  · rw [hlater.clientDebugMode, hfirst.clientDebugMode, hone, lastValue_cons]
  · rw [hlater.quietMode, hfirst.quietMode, hone, lastValue_cons]
  · rw [hlater.forceMode, hfirst.forceMode, hone, lastValue_cons]
  · rw [hlater.forceDelete, hfirst.forceDelete, hone, lastValue_cons]
  · rw [hlater.traceMode, hfirst.traceMode, hone, lastValue_cons]
  · rw [hlater.insecureMode, hfirst.insecureMode, hone, lastValue_cons]
  · rw [hlater.userAgent, hfirst.userAgent, hone, lastValue_cons]
  · rw [hlater.proxyURL, hfirst.proxyURL, hone, lastValue_cons]
  · rw [hlater.ghProxy, hfirst.ghProxy, hone, lastValue_cons]

/-! ## The receiver -/

theorem receiver_cases {raw : List WString} {d : Delivery}
    (h : ParseArgv.Sound (baulkParser raw) d) (s : Settings) :
    receiver d s = .error .exited ∨
      d.val = 1002 ∧ receiver d s = .error .nullArgument ∨
      ∃ t, receiver d s = .ok (true, t) ∧ Follows s t [d] := by
  obtain ⟨o, ho, hval, hrequired, hno⟩ := h
  simp only [baulkParser, baulkOptions, List.mem_cons, List.not_mem_nil, or_false] at ho
  have htext : o.hasArgs = .requiredArgument → ∃ text, d.oa = some text := fun hargs =>
    Option.ne_none_iff_exists'.mp (hrequired hargs)
  rcases ho with rfl | rfl | rfl | rfl | rfl | rfl | rfl | rfl | rfl | rfl | rfl | rfl <;>
    dsimp only at hval htext hno
  · exact .inl (by simp [receiver, hval])
  · exact .inl (by simp [receiver, hval])
  · refine .inr (.inr ⟨{ s with debugMode := true, clientDebugMode := true },
      by simp [receiver, hval], ?_⟩)
    constructor <;> simp [lastValue, textOf, flagOf, hval]
  · refine .inr (.inr ⟨{ s with quietMode := true }, by simp [receiver, hval], ?_⟩)
    constructor <;> simp [lastValue, textOf, flagOf, hval]
  · refine .inr (.inr ⟨{ s with forceMode := true }, by simp [receiver, hval], ?_⟩)
    constructor <;> simp [lastValue, textOf, flagOf, hval]
  · obtain ⟨text, hoa⟩ := htext rfl
    refine .inr (.inr ⟨{ s with profile := text }, by simp [receiver, useArgument, hval, hoa], ?_⟩)
    constructor <;> simp [lastValue, textOf, flagOf, hval, hoa]
  · obtain ⟨text, hoa⟩ := htext rfl
    refine .inr (.inr ⟨{ s with userAgent := text },
      by simp [receiver, useArgument, hval, hoa], ?_⟩)
    constructor <;> simp [lastValue, textOf, flagOf, hval, hoa]
  · refine .inr (.inr ⟨{ s with insecureMode := true }, by simp [receiver, hval], ?_⟩)
    constructor <;> simp [lastValue, textOf, flagOf, hval]
  · obtain ⟨text, hoa⟩ := htext rfl
    refine .inr (.inr ⟨{ s with proxyURL := text }, by simp [receiver, useArgument, hval, hoa], ?_⟩)
    constructor <;> simp [lastValue, textOf, flagOf, hval, hoa]
  · exact .inr (.inl ⟨hval, by simp [receiver, useArgument, hval, hno rfl]⟩)
  · obtain ⟨text, hoa⟩ := htext rfl
    refine .inr (.inr ⟨{ s with ghProxy := withSlash text },
      by simp [receiver, useArgument, hval, hoa], ?_⟩)
    constructor <;> simp [lastValue, textOf, flagOf, hval, hoa]
  · refine .inr (.inr ⟨{ s with traceMode := true }, by simp [receiver, hval], ?_⟩)
    constructor <;> simp [lastValue, textOf, flagOf, hval]

theorem follows_of_accepts {raw : List WString} {ds : List Delivery} {s s' : Settings}
    (hsound : ∀ d ∈ ds, ParseArgv.Sound (baulkParser raw) d)
    (h : ParseArgv.Accepts receiver ds s s') : Follows s s' ds := by
  induction ds generalizing s with
  | nil =>
      obtain rfl : s = s' := h
      exact .nil s
  | cons d ds ih =>
      obtain ⟨t, hfirst, hlater⟩ := h
      have hrest := ih (fun d' hd' => hsound d' (List.mem_cons_of_mem _ hd')) hlater
      rcases receiver_cases (hsound d List.mem_cons_self) s with
        hexit | ⟨-, hnull⟩ | ⟨t', ht', hone⟩
      · rw [hexit] at hfirst
        cases hfirst
      · rw [hnull] at hfirst
        cases hfirst
      · rw [ht'] at hfirst
        cases hfirst
        exact hone.cons hrest

/-- When the options were read every setting is as its own option says, but `--verbose` turns
`--quiet` off; and a value that is not there is used only for `--force-delete`. -/
theorem parseOptions_settings (raw : List WString) (s : Settings) :
    (∀ argv s', parseOptions raw s = some (argv, s') →
      ∃ ds t, ParseArgv.Reading (baulkParser raw) raw argv ds ∧ Follows s t ds ∧
        s' = { t with quietMode := t.quietMode && !t.debugMode }) ∧
    ∀ r, (baulkParser raw).execute receiver s = some (.ended .nullArgument, r) →
      ∃ d ∈ r.delivered, d.val = 1002 := by
  constructor
  · intro argv s' h
    unfold parseOptions at h
    split at h
    · next r hr =>
      cases h
      obtain ⟨argv, ds, hreading, hargv, hds, haccepts⟩ := ParseArgv.reading_of_success hr
      have hsound := ParseArgv.sound_of_loop hr nofun
      rw [List.nil_append] at hargv hds
      dsimp only at hsound haccepts
      rw [hds] at hsound
      refine ⟨ds, r.state, hargv ▸ hreading, follows_of_accepts hsound haccepts, ?_⟩
      unfold settle
      split
      · next hboth =>
        rw [Bool.and_eq_true] at hboth
        rw [hboth.1, Bool.not_true, Bool.and_false]
      · next hnot =>
        have hquiet : (r.state.quietMode && !r.state.debugMode) = r.state.quietMode := by
          revert hnot
          cases r.state.debugMode <;> cases r.state.quietMode <;> decide
        rw [hquiet]
    · cases h
  · intro r hr
    obtain ⟨d, hd, s', hnull⟩ := ParseArgv.ended_of_loop hr
    refine ⟨d, hd, ?_⟩
    rcases receiver_cases (ParseArgv.sound_of_loop hr nofun d hd) s' with
      hexit | ⟨hval, -⟩ | ⟨t, ht, -⟩
    · rw [hexit] at hnull
      cases hnull
    · exact hval
    · rw [ht] at hnull
      cases hnull

/-! ### Verbose and quiet -/

/-- A command line with both options. -/
def verboseQuiet : List WString :=
  [wide "--verbose", wide "--quiet", wide "list"]

theorem reading_verboseQuiet {argv : List WString} {ds : List Delivery}
    (h : ParseArgv.Reading (baulkParser verboseQuiet) verboseQuiet argv ds) :
    ds.filterMap (flagOf 0x51) = [true] := by
  have hvals : ∀ o ∈ (baulkParser verboseQuiet).options, o.val ≠ -1 := by decide
  have haccepts : ∀ ds : List Delivery,
      ParseArgv.Accepts (fun _ s => (.ok (true, s) : Except Empty (Bool × Unit))) ds () () := by
    intro ds
    induction ds with
    | nil => rfl
    | cons d ds ih => exact ⟨(), rfl, ih⟩
  have hrun : ∃ r, (baulkParser verboseQuiet).execute
      (fun _ s => (.ok (true, s) : Except Empty (Bool × Unit))) () = some (.success, r) ∧
      r.argv = [] ++ argv ∧ r.delivered = [] ++ ds :=
    ParseArgv.success_of_reading hvals h rfl (haccepts ds) (by decide)
  obtain ⟨r, hr, -, hds⟩ := hrun
  rw [List.nil_append] at hds
  rw [← hds]
  cases hr
  decide

/-- `--verbose` changes the setting of `--quiet`. -/
theorem parseOptions_verboseQuiet :
    ∃ argv s', parseOptions verboseQuiet {} = some (argv, s') ∧
      ¬ ∃ ds, ParseArgv.Reading (baulkParser verboseQuiet) verboseQuiet argv ds ∧
        Follows {} s' ds := by
  refine ⟨[wide "list"], { debugMode := true, clientDebugMode := true }, by decide, ?_⟩
  rintro ⟨ds, hreading, hfollows⟩
  have hquiet := hfollows.quietMode
  rw [lastValue, reading_verboseQuiet hreading] at hquiet
  cases hquiet

end Baulk.Cli
