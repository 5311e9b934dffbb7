import Baulk.Cli.BaulkArgv
import Baulk.Net.WinGet

/-!
# The downloads of wind

`wind` registers its options under capital letters and looks for small ones when it is
called for them, so `--cwd`, `--output`, `--replace` and `--insecure` set nothing.  With
several URLs it counts the downloads that succeed in a variable that stays zero.  What it
does is what it was asked to do only if the command line asks for the defaults, and not
all of several downloads succeed.
-/

namespace Baulk.Cli

open Net (DownloadOptions)
open ParseArgv (Reading Accepts Sound)

/-! ## The command line -/

/-- The variables of `HttpClient::DefaultClient()`. -/
structure HttpClient where
  userAgent : WString := wide "Wget/7.0 (Baulk)"
  proxyURL : WString := []
  ghProxy : WString := []
  noProxy : List WString := []
  insecureMode : Bool := false
  debugMode : Bool := false
  noCache : Bool := false

/-- `Executor` of wind, with the client that it uses. -/
structure WindExecutor where
  urls : List WString := []
  cwd : WinPath := .ofText []
  destination : WinPath := .ofText []
  replace : Bool := false
  debugMode : Bool := false
  client : HttpClient := {}

/-- What a run is given: the environment, the current directory, and how the downloads
end one after the other. -/
structure WindEnv where
  getEnv : WString → WString
  currentPath : Except ErrorCode WinPath
  outcome : Nat → Except ErrorCode WinPath

/-- The value of an option is used. -/
def useText (oa : Option WString) (set : WString → WindExecutor) :
    Except Stop (Bool × WindExecutor) :=
  match oa with
  | none => .error .nullArgument
  | some text => .ok (true, set text)

def windReceiver : Receiver WindExecutor Stop := fun d e =>
  if d.val = 0x68 then .error .exited -- 'h'
  else if d.val = 0x76 then .error .exited -- 'v'
  else if d.val = 0x56 then -- 'V'
    .ok (true, { e with debugMode := true, client := { e.client with debugMode := true } })
  else if d.val = 0x66 then .ok (true, { e with replace := true }) -- 'f'
  else if d.val = 0x6B then -- 'k'
    .ok (true, { e with client := { e.client with insecureMode := true } })
  else if d.val = 0x64 then .ok (true, e) -- 'd'
  else if d.val = 0x77 then useText d.oa fun text => { e with cwd := .ofText text } -- 'w'
  else if d.val = 0x6F then useText d.oa fun text => { e with destination := .ofText text } -- 'o'
  else if d.val = 0x41 then -- 'A'
    useText d.oa fun text => { e with client := { e.client with userAgent := text } }
  else if d.val = 1001 then
    useText d.oa fun text => { e with client := { e.client with proxyURL := text } }
  else if d.val = 1002 then .ok (true, { e with client := { e.client with noCache := true } })
  else .ok (true, e)

def windOptions : List CliOption :=
  [⟨wide "help", .noArgument, 0x68⟩,
    ⟨wide "version", .noArgument, 0x76⟩,
    ⟨wide "verbose", .noArgument, 0x56⟩,
    ⟨wide "cwd", .requiredArgument, 0x57⟩,
    ⟨wide "replace", .noArgument, 0x52⟩,
    ⟨wide "insecure", .noArgument, 0x4B⟩,
    ⟨wide "output", .requiredArgument, 0x4F⟩,
    ⟨wide "user-agent", .requiredArgument, 0x41⟩,
    ⟨wide "https-proxy", .requiredArgument, 1001⟩,
    ⟨wide "no-cache", .noArgument, 1002⟩]

/-- `pa`, for the arguments behind the name of the program.  It is a `bela::ParseArgv`,
which reads a command line like `cli::ParseArgv` without subcommands. -/
def windParser (raw : List WString) : ParseArgv where
  rawargv := raw
  options := windOptions
  subcmds := []

def HttpClient.initializeProxyFromEnv (getEnv : WString → WString) (client : HttpClient) :
    HttpClient :=
  let githubProxy := getEnv (wide "BAULK_GITHUB_PROXY")
  let noProxyURL := getEnv (wide "NO_PROXY")
  { client with
    ghProxy :=
      if client.ghProxy.isEmpty && !githubProxy.isEmpty then withSlash githubProxy
      else client.ghProxy
    noProxy :=
      if noProxyURL.isEmpty then client.noProxy
      else Support.components (· == 0x2C) noProxyURL
    proxyURL :=
      (([wide "HTTPS_PROXY", wide "HTTP_PROXY", wide "ALL_PROXY"].map getEnv).find?
        fun url => !url.isEmpty).getD [] }

/-- `ParseArgv`; `none` where it returns `false` or ends the program. -/
def WindExecutor.parseArgv (env : WindEnv) (raw : List WString) : Option WindExecutor :=
  match (windParser raw).execute windReceiver {} with
  | some (.success, r) =>
      let e := { r.state with urls := r.argv }
      let start (cwd : WinPath) : WindExecutor :=
        { e with cwd, client := e.client.initializeProxyFromEnv env.getEnv }
      if e.cwd.isEmpty then
        match env.currentPath with
        | .error _ => none
        | .ok cwd => some (start cwd)
      else some (start e.cwd)
  | _ => none

/-! ## Downloads -/

/-- How a download is performed. -/
structure Request where
  options : DownloadOptions
  insecure : Bool

/-- A call of `WinGet`, and how it ended. -/
structure Performed where
  url : WString
  request : Request
  outcome : Except ErrorCode WinPath

namespace WindExecutor

def singleDownload (env : WindEnv) (e : WindExecutor) (url : WString) : Int × List Performed :=
  let file := env.outcome 0
  let options : DownloadOptions :=
    { hashValue := [], cwd := e.cwd, destination := e.destination, forceOverwrite := e.replace }
  (if file.isOk then 0 else 1, [⟨url, ⟨options, e.client.insecureMode⟩, file⟩])

/-- The loop of `multi_download`, from the `i`-th URL on.  Nothing is done to `success`,
whether a download fails or not. -/
def multiLoop (env : WindEnv) (e : WindExecutor) (success i : Nat) :
    List WString → Nat × List Performed
  | [] => (success, [])
  | url :: urls =>
      let options : DownloadOptions :=
        { hashValue := [], cwd := e.cwd, destination := .ofText [], forceOverwrite := e.replace }
      let (success, later) := multiLoop env e success (i + 1) urls
      (success, ⟨url, ⟨options, e.client.insecureMode⟩, env.outcome i⟩ :: later)

def multiDownload (env : WindEnv) (e : WindExecutor) : Int × List Performed :=
  let (success, performed) := multiLoop env e 0 0 e.urls
  (if success = e.urls.length then 0 else 1, performed)

def execute (env : WindEnv) (e : WindExecutor) : Int × List Performed :=
  match e.urls with
  | [] => (1, [])
  | [url] => e.singleDownload env url
  | _ => e.multiDownload env

end WindExecutor

/-! ## What is asked for -/

/-- The path that an option gives. -/
def pathOf (val : Int) (d : Delivery) : Option WinPath :=
  (textOf val d).map .ofText

/-- How the options of a command line ask for the downloads: the last `-W`, `-O`, `-R` and
`-K` count, and the current directory stands for an empty one. -/
def asked (ds : List Delivery) (current : WinPath) : Request where
  options :=
    { hashValue := []
      cwd :=
        let cwd := lastValue (pathOf 0x57) ds (.ofText [])
        if cwd.isEmpty then current else cwd
      destination := lastValue (pathOf 0x4F) ds (.ofText [])
      forceOverwrite := lastValue (flagOf 0x52) ds false }
  insecure := lastValue (flagOf 0x4B) ds false

/-- How all downloads are performed. -/
def defaultRequest (current : WinPath) : Request where
  options := { hashValue := [], cwd := current, destination := .ofText [] }
  insecure := false

/-- A run does what its command line says: it returns 0 if there is a URL and all URLs
were downloaded, and every download is performed as the options ask for. -/
def Obeys (env : WindEnv) (raw : List WString) (e : WindExecutor) : Prop :=
  ∃ ds current, Reading (windParser raw) raw e.urls ds ∧ env.currentPath = .ok current ∧
    (e.execute env).2.map Performed.url = e.urls ∧
    ((e.execute env).1 = 0 ↔
      e.urls ≠ [] ∧ ∀ d ∈ (e.execute env).2, d.outcome.isOk = true) ∧
    ∀ d ∈ (e.execute env).2, d.request = asked ds current

/-- A command line asks for no help and no version. -/
def Goes (ds : List Delivery) : Prop :=
  ∀ d ∈ ds, d.val ≠ 0x68 ∧ d.val ≠ 0x76

/-- The options ask for the defaults, unless there is no URL, and of several downloads one
fails. -/
def AsksDefaults (env : WindEnv) (raw : List WString) : Prop :=
  ∀ {urls ds current}, Reading (windParser raw) raw urls ds → Goes ds →
    env.currentPath = .ok current →
      (urls ≠ [] → asked ds current = defaultRequest current) ∧
        (1 < urls.length → ∃ i < urls.length, (env.outcome i).isOk = false)

/-! ## Readings -/

/-- A receiver that accepts every call. -/
def acceptAll : Receiver Unit Empty := fun _ s => .ok (true, s)

theorem accepts_acceptAll (ds : List Delivery) : Accepts acceptAll ds () () := by
  induction ds with
  | nil => rfl
  | cons d ds ih => exact ⟨(), rfl, ih⟩

theorem windOptions_vals (raw : List WString) :
    ∀ o ∈ (windParser raw).options, o.val ≠ -1 := by
  change ∀ o ∈ windOptions, o.val ≠ -1
  decide

theorem execute_of_reading {σ ε : Type} {raw urls : List WString} {ds : List Delivery}
    (h : Reading (windParser raw) raw urls ds) {v : Receiver σ ε} {s s' : σ}
    (haccepts : Accepts v ds s s') :
    ∃ r, (windParser raw).execute v s = some (.success, r) ∧ r.argv = urls ∧
      r.delivered = ds := by
  have hfuel : (windParser raw).rawargv.length - 0 < (windParser raw).rawargv.length + 1 := by
    omega
  have hrun : ∃ r, (windParser raw).execute v s = some (.success, r) ∧ r.argv = [] ++ urls ∧
      r.delivered = [] ++ ds :=
    ParseArgv.success_of_reading (windOptions_vals raw) h rfl haccepts hfuel
  exact hrun

theorem reading_unique {raw urls urls' : List WString} {ds ds' : List Delivery}
    (h : Reading (windParser raw) raw urls ds) (h' : Reading (windParser raw) raw urls' ds') :
    urls = urls' ∧ ds = ds' := by
  obtain ⟨r, hr, hurls, hds⟩ := execute_of_reading h (accepts_acceptAll ds)
  obtain ⟨r', hr', hurls', hds'⟩ := execute_of_reading h' (accepts_acceptAll ds')
  rw [hr] at hr'
  cases hr'
  exact ⟨hurls.symm.trans hurls', hds.symm.trans hds'⟩

theorem reading_sound {raw urls : List WString} {ds : List Delivery}
    (h : Reading (windParser raw) raw urls ds) : ∀ d ∈ ds, Sound (windParser raw) d := by
  obtain ⟨r, hr, -, hds⟩ := execute_of_reading h (accepts_acceptAll ds)
  rw [← hds]
  exact ParseArgv.sound_of_loop hr nofun

/-! ## The receiver -/

/-- The settings of the downloads are as before. -/
structure Keeps (e t : WindExecutor) : Prop where
  cwd : t.cwd = e.cwd
  destination : t.destination = e.destination
  replace : t.replace = e.replace
  insecureMode : t.client.insecureMode = e.client.insecureMode

/-- No option of the table sets a setting of the downloads. -/
theorem windReceiver_keeps {raw : List WString} {d : Delivery} (h : Sound (windParser raw) d)
    (hgoes : d.val ≠ 0x68 ∧ d.val ≠ 0x76) (e : WindExecutor) :
    ∃ t, windReceiver d e = .ok (true, t) ∧ Keeps e t := by
  obtain ⟨o, ho, hval, hrequired, -⟩ := h
  simp only [windParser, windOptions, List.mem_cons, List.not_mem_nil, or_false] at ho
  have htext : o.hasArgs = .requiredArgument → ∃ text, d.oa = some text := fun hargs =>
    Option.ne_none_iff_exists'.mp (hrequired hargs)
  have hdefault : windReceiver d e = .ok (true, e) → ∃ t, windReceiver d e = .ok (true, t) ∧
      Keeps e t := fun hok => ⟨e, hok, rfl, rfl, rfl, rfl⟩
  rcases ho with rfl | rfl | rfl | rfl | rfl | rfl | rfl | rfl | rfl | rfl <;>
    dsimp only at hval htext
  · exact absurd hval hgoes.1
  · exact absurd hval hgoes.2
  · exact ⟨{ e with debugMode := true, client := { e.client with debugMode := true } },
      by simp [windReceiver, hval], rfl, rfl, rfl, rfl⟩
  · exact hdefault (by simp [windReceiver, hval])
  · exact hdefault (by simp [windReceiver, hval])
  · exact hdefault (by simp [windReceiver, hval])
  · exact hdefault (by simp [windReceiver, hval])
  · obtain ⟨text, hoa⟩ := htext rfl
    exact ⟨{ e with client := { e.client with userAgent := text } },
      by simp [windReceiver, useText, hval, hoa], rfl, rfl, rfl, rfl⟩
  · obtain ⟨text, hoa⟩ := htext rfl
    exact ⟨{ e with client := { e.client with proxyURL := text } },
      by simp [windReceiver, useText, hval, hoa], rfl, rfl, rfl, rfl⟩
  · exact ⟨{ e with client := { e.client with noCache := true } },
      by simp [windReceiver, hval], rfl, rfl, rfl, rfl⟩

theorem exists_accepts {raw : List WString} {ds : List Delivery}
    (hsound : ∀ d ∈ ds, Sound (windParser raw) d) (hgoes : Goes ds) (e : WindExecutor) :
    ∃ t, Accepts windReceiver ds e t := by
  induction ds generalizing e with
  | nil => exact ⟨e, rfl⟩
  | cons d ds ih =>
      obtain ⟨t, hfirst, -⟩ :=
        windReceiver_keeps (hsound d List.mem_cons_self) (hgoes d List.mem_cons_self) e
      obtain ⟨t', hlater⟩ := ih (fun d' hd' => hsound d' (List.mem_cons_of_mem _ hd'))
        (fun d' hd' => hgoes d' (List.mem_cons_of_mem _ hd')) t
      exact ⟨t', t, hfirst, hlater⟩

/-- Calls that are accepted ask for no help and no version, and set nothing. -/
theorem keeps_of_accepts {raw : List WString} {ds : List Delivery}
    (hsound : ∀ d ∈ ds, Sound (windParser raw) d) {e t : WindExecutor}
    (h : Accepts windReceiver ds e t) : Goes ds ∧ Keeps e t := by
  induction ds generalizing e with
  | nil =>
      obtain rfl : e = t := h
      exact ⟨nofun, rfl, rfl, rfl, rfl⟩
  | cons d ds ih =>
      obtain ⟨e₁, hfirst, hlater⟩ := h
      have hgoes : d.val ≠ 0x68 ∧ d.val ≠ 0x76 := by
        constructor <;>
        · intro hval
          simp [windReceiver, hval] at hfirst
      obtain ⟨e₁', hfirst', hkeeps⟩ :=
        windReceiver_keeps (hsound d List.mem_cons_self) hgoes e
      rw [hfirst] at hfirst'
      cases hfirst'
      obtain ⟨hrest, hkeeps'⟩ := ih (fun d' hd' => hsound d' (List.mem_cons_of_mem _ hd')) hlater
      refine ⟨?_, ?_⟩
      · intro d' hd'
        rcases List.mem_cons.mp hd' with rfl | hd'
        · exact hgoes
        · exact hrest d' hd'
      · exact ⟨hkeeps'.cwd.trans hkeeps.cwd, hkeeps'.destination.trans hkeeps.destination,
          hkeeps'.replace.trans hkeeps.replace, hkeeps'.insecureMode.trans hkeeps.insecureMode⟩

/-! ## The executor -/

/-- An executor with the settings that no option has changed. -/
structure Defaults (e : WindExecutor) (current : WinPath) : Prop where
  cwd : e.cwd = current
  destination : e.destination = .ofText []
  replace : e.replace = false
  insecureMode : e.client.insecureMode = false

theorem parseArgv_some {env : WindEnv} {raw : List WString} {e : WindExecutor}
    (h : WindExecutor.parseArgv env raw = some e) :
    ∃ ds current, Reading (windParser raw) raw e.urls ds ∧ Goes ds ∧
      env.currentPath = .ok current ∧ Defaults e current := by
  unfold WindExecutor.parseArgv at h
  split at h
  · next r hr =>
    obtain ⟨urls, ds, hreading, hurls, hds, haccepts⟩ := ParseArgv.reading_of_success hr
    rw [List.nil_append] at hurls hds
    dsimp only at haccepts
    obtain ⟨hgoes, hkeeps⟩ := keeps_of_accepts (reading_sound hreading) haccepts
    have hempty : r.state.cwd.isEmpty = true := by
      rw [hkeeps.cwd]
      decide
    dsimp only at h
    rw [if_pos hempty] at h
    split at h
    · cases h
    · next current hcurrent =>
      cases h
      refine ⟨ds, current, hurls ▸ hreading, hgoes, hcurrent, rfl, ?_, ?_, ?_⟩
      · exact hkeeps.destination
      · exact hkeeps.replace
      · exact hkeeps.insecureMode
  · cases h

theorem exists_parseArgv (env : WindEnv) {raw urls : List WString} {ds : List Delivery}
    {current : WinPath} (hreading : Reading (windParser raw) raw urls ds) (hgoes : Goes ds)
    (hcurrent : env.currentPath = .ok current) :
    ∃ e, WindExecutor.parseArgv env raw = some e ∧ e.urls = urls := by
  have hsound := reading_sound hreading
  obtain ⟨t, haccepts⟩ := exists_accepts hsound hgoes {}
  obtain ⟨r, hr, hurls, hds⟩ := execute_of_reading hreading haccepts
  unfold WindExecutor.parseArgv
  rw [hr]
  dsimp only
  rw [hcurrent]
  split
  · exact ⟨_, rfl, hurls⟩
  · exact ⟨_, rfl, hurls⟩

/-! ## Downloads one after the other -/

/-- The downloads of URLs, the `i`-th one first. -/
def downloads (env : WindEnv) (request : Request) (i : Nat) : List WString → List Performed
  | [] => []
  | url :: urls => ⟨url, request, env.outcome i⟩ :: downloads env request (i + 1) urls

theorem downloads_url (env : WindEnv) (request : Request) (i : Nat) (urls : List WString) :
    (downloads env request i urls).map Performed.url = urls := by
  induction urls generalizing i with
  | nil => rfl
  | cons url urls ih => rw [downloads, List.map_cons, ih]

theorem downloads_request {env : WindEnv} {request : Request} {i : Nat} {urls : List WString} :
    ∀ d ∈ downloads env request i urls, d.request = request := by
  induction urls generalizing i with
  | nil => nofun
  | cons url urls ih =>
      intro d hd
      rcases List.mem_cons.mp hd with rfl | hd
      · rfl
      · exact ih d hd

theorem downloads_outcome {env : WindEnv} {request : Request} {i : Nat} {urls : List WString} :
    (∀ d ∈ downloads env request i urls, d.outcome.isOk = true) ↔
      ∀ k < urls.length, (env.outcome (i + k)).isOk = true := by
  induction urls generalizing i with
  | nil => exact iff_of_true nofun nofun
  | cons url urls ih =>
      rw [downloads, List.forall_mem_cons, ih]
      constructor
      · rintro ⟨hfirst, hlater⟩ k hk
        cases k with
        | zero => exact hfirst
        | succ k =>
            rw [← Nat.succ_add_eq_add_succ]
            exact hlater k (Nat.lt_of_succ_lt_succ hk)
      · intro hall
        refine ⟨hall 0 (Nat.succ_pos _), fun k hk => ?_⟩
        rw [Nat.succ_add_eq_add_succ]
        exact hall (k + 1) (Nat.succ_lt_succ hk)

theorem multiLoop_eq {env : WindEnv} {e : WindExecutor} {current : WinPath}
    (h : Defaults e current) (success i : Nat) (urls : List WString) :
    e.multiLoop env success i urls =
      (success, downloads env (defaultRequest current) i urls) := by
  induction urls generalizing i with
  | nil => rfl
  | cons url urls ih =>
      rw [WindExecutor.multiLoop, ih, h.cwd, h.replace, h.insecureMode]
      rfl

/-- Every URL is downloaded with the defaults, and the result is 0 if there is one URL and
its download succeeds. -/
theorem execute_eq (env : WindEnv) {e : WindExecutor} {current : WinPath}
    (h : Defaults e current) :
    (e.execute env).2 = downloads env (defaultRequest current) 0 e.urls ∧
      ((e.execute env).1 = 0 ↔ e.urls.length = 1 ∧ (env.outcome 0).isOk = true) := by
  unfold WindExecutor.execute
  split
  · next hurls =>
    rw [hurls]
    exact ⟨rfl, iff_of_false (by decide) (by simp)⟩
  · next url hurls =>
    rw [hurls, WindExecutor.singleDownload, h.cwd, h.destination, h.replace, h.insecureMode]
    refine ⟨rfl, ?_⟩
    cases (env.outcome 0).isOk with
    | true => exact iff_of_true rfl ⟨rfl, rfl⟩
    | false => exact iff_of_false (Int.one_ne_zero) (by simp)
  · next hmany hone =>
    rw [WindExecutor.multiDownload, multiLoop_eq h]
    have hlength : e.urls.length ≠ 0 := fun hzero => hmany (List.eq_nil_of_length_eq_zero hzero)
    dsimp only
    rw [if_neg (Ne.symm hlength)]
    refine ⟨rfl, iff_of_false Int.one_ne_zero ?_⟩
    rintro ⟨hlength, -⟩
    obtain ⟨url, hurl⟩ := List.length_eq_one_iff.mp hlength
    exact hone url hurl

/-- A run does what its command line says if and only if the options ask for the
defaults, unless there is no URL, and not all of several downloads succeed. -/
theorem obeys_iff (env : WindEnv) (raw : List WString) :
    (∀ {e}, WindExecutor.parseArgv env raw = some e → Obeys env raw e) ↔
      AsksDefaults env raw := by
  constructor
  · intro h urls ds current hreading hgoes hcurrent
    obtain ⟨e, he, rfl⟩ := exists_parseArgv env hreading hgoes hcurrent
    obtain ⟨ds', current', hreading', hcurrent', -, hcode, hrequest⟩ := h he
    obtain ⟨-, rfl⟩ := reading_unique hreading hreading'
    rw [hcurrent] at hcurrent'
    cases hcurrent'
    obtain ⟨ds₁, current₁, -, -, hcurrent₁, hdefaults⟩ := parseArgv_some he
    rw [hcurrent] at hcurrent₁
    cases hcurrent₁
    obtain ⟨hperformed, hzero⟩ := execute_eq env hdefaults
    rw [hperformed] at hcode hrequest
    constructor
    · intro hnonempty
      obtain ⟨url, rest, hurls⟩ := List.exists_cons_of_ne_nil hnonempty
      rw [hurls] at hrequest
      exact (hrequest _ List.mem_cons_self).symm
    · intro hmany
      by_contra hall
      simp only [not_exists, not_and, Bool.not_eq_false] at hall
      have hsuccess := hcode.mpr ⟨List.ne_nil_of_length_pos (by omega), by
        rw [downloads_outcome]
        intro k hk
        rw [Nat.zero_add]
        exact hall k hk⟩
      have hone := (hzero.mp hsuccess).1
      omega
  · intro h e he
    obtain ⟨ds, current, hreading, hgoes, hcurrent, hdefaults⟩ := parseArgv_some he
    obtain ⟨hasked, hfails⟩ := h hreading hgoes hcurrent
    obtain ⟨hperformed, hzero⟩ := execute_eq env hdefaults
    refine ⟨ds, current, hreading, hcurrent, ?_, ?_, ?_⟩
    · rw [hperformed, downloads_url]
    · rw [hperformed, downloads_outcome, hzero]
      simp only [Nat.zero_add]
      constructor
      · rintro ⟨hlength, hok⟩
        refine ⟨List.ne_nil_of_length_pos (by omega), fun k hk => ?_⟩
        have hk0 : k = 0 := by omega
        rw [hk0]
        exact hok
      · rintro ⟨hnonempty, hall⟩
        have hpositive := List.length_pos_of_ne_nil hnonempty
        refine ⟨?_, hall 0 hpositive⟩
        by_contra hne
        obtain ⟨i, hi, hfail⟩ := hfails (by omega)
        rw [hall i hi] at hfail
        cases hfail
    · rw [hperformed]
      intro d hd
      have hnonempty : e.urls ≠ [] := by
        intro hnil
        rw [hnil] at hd
        cases hd
      rw [downloads_request d hd, hasked hnonempty]

/-- Every download succeeds. -/
def fairEnv : WindEnv where
  getEnv _ := []
  currentPath := .ok (.ofText (wide "C:\\"))
  outcome _ := .ok (.ofText (wide "C:\\a"))

/-- Two URLs that are both downloaded. -/
theorem not_obeys_two :
    ¬ ∀ {e}, WindExecutor.parseArgv fairEnv [wide "a", wide "b"] = some e →
      Obeys fairEnv [wide "a", wide "b"] e := by
  intro h
  have hreading : Reading (windParser [wide "a", wide "b"]) [wide "a", wide "b"]
      [wide "a", wide "b"] [] :=
    .positional (by decide) nofun (.positional (by decide) nofun .nil)
  obtain ⟨e, he, hurls⟩ := exists_parseArgv fairEnv hreading nofun rfl
  obtain ⟨ds, current, -, -, -, hdefaults⟩ := parseArgv_some he
  obtain ⟨hperformed, hzero⟩ := execute_eq fairEnv hdefaults
  obtain ⟨-, -, -, -, -, hcode, -⟩ := h he
  rw [hperformed, hzero, downloads_outcome, hurls] at hcode
  exact absurd (hcode.mpr ⟨by simp, fun _ _ => rfl⟩).1 (by decide)

end Baulk.Cli
