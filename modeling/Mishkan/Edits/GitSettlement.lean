import Mishkan.Edits.Git

/-!
# Edits/GitSettlement — what the settlement of a Git effect tells

A push is settled by comparing what its remote branch was observed to point to before and after.  A
listing that failed counts like a branch that is not there, so two values that agree need not have
been observed; and whatever fails behind the command takes the result with it.
`git_settlement_truthful_iff` says when the settlement is truthful nevertheless.
-/

namespace Mishkan.Edits

open Refusal GitOutcome

/-! ## What the subprocesses show -/

namespace GitOutcome

/-- The process has ended, and its output can be read. -/
def ended : GitOutcome → Bool
  | .completed _ => true
  | .timedOut | .undecodable | .notStarted => false

/-- The process was started. -/
def started : GitOutcome → Bool
  | .notStarted => false
  | .completed _ | .timedOut | .undecodable => true

/-- What a listing that succeeded shows of its branch. -/
def shownOid : GitOutcome → Option (Option String)
  | .completed process => if process.returncode = 0 then some (remoteOid process) else none
  | .timedOut | .undecodable | .notStarted => none

/-- The revision a process has resolved. -/
def resolved : GitOutcome → Option String
  | .completed process => revision process
  | .timedOut | .undecodable | .notStarted => none

variable {outcome : GitOutcome} {process : CompletedProcess}

@[simp] theorem result_eq_ok : outcome.result = .ok process ↔ outcome = .completed process := by
  cases outcome <;> simp [result]

theorem ended_iff : outcome.ended = true ↔ ∃ process, outcome = .completed process := by
  cases outcome <;> simp [ended]

/-- A listing that failed counts like a branch that is not listed. -/
theorem join_shownOid : (completed process).shownOid.join = remoteOid process := by
  by_cases h : process.returncode = 0 <;> simp [shownOid, remoteOid, h]

end GitOutcome

variable {urls : UrlLibrary} (host : GitHost) (request : GitEffectRequest urls)
  (authority : GitAuthority) (prepared : GitPrepared)

/-- How running the command of the effect turned out. -/
def effectOutcome : GitOutcome := host.run .effect prepared.argv

/-- What became of reading the revision behind the command. -/
def headOutcome : GitOutcome := host.run .headAfter ["rev-parse", "HEAD"]

/-- The arguments of both listings. -/
def listing : List String :=
  lsRemoteArguments (request.expectedRemoteUrl.getD "") (request.branch.getD "")

def listedBefore : GitOutcome := host.run .lsRemoteBefore (listing request)

def listedAfter : GitOutcome := host.run .lsRemoteAfter (listing request)

/-- The commands that collect the evidence. -/
def evidenceOf : List String × List String :=
  evidenceArguments request prepared.beforeRevision (headOutcome host).resolved
    prepared.remoteBefore

/-- **What a settlement tells.**  A push is completed: its revision was seen on the branch of the
remote afterwards; it is absent: the branch was seen unchanged before and after.  A commit is
completed or absent: its command has ended, successfully or not. -/
def Shows : EffectSettlement → Prop
  | .completed =>
    if request.mode.isRemote then
      ∃ target, (headOutcome host).resolved = some target ∧
        (listedAfter host request).shownOid = some (some target)
    else ∃ process, effectOutcome host prepared = .completed process ∧ process.returncode = 0
  | .absent =>
    if request.mode.isRemote then
      ∃ value, (listedBefore host request).shownOid = some value ∧
        (listedAfter host request).shownOid = some value
    else ∃ process, effectOutcome host prepared = .completed process ∧ process.returncode ≠ 0
  | .uncertain => True

/-- A push or commit that was started is settled as what is shown, and as uncertain otherwise; and
no command that has ended leaves without a result. -/
structure Truthful (result : Except Raised GitEffectResult) : Prop where
  settled : request.mode ≠ .stage → (effectOutcome host prepared).started →
    ∃ r, result = .ok r ∧ Shows host request prepared r.settlement ∧
      (¬ Shows host request prepared .completed → ¬ Shows host request prepared .absent →
        r.settlement = .uncertain)
  reported : (effectOutcome host prepared).ended → ∃ r, result = .ok r

/-- The evidence behind the command is complete, and if a push is not shown completed while the
branch looks the same before and after, it was seen both times. -/
structure Evident : Prop where
  head : (headOutcome host).ended
  listed : request.remote.isSome → (listedAfter host request).ended
  diff : ∃ diff, host.run .diff (evidenceOf host request prepared).1 = .completed diff ∧
    ∃ reference, host.putBytes diff.stdout = .ok reference
  names : (host.run .names (evidenceOf host request prepared).2).ended
  seen : request.mode.isRemote → ¬ Shows host request prepared .completed →
    (listedBefore host request).shownOid.join = (listedAfter host request).shownOid.join →
      Shows host request prepared .absent

/-- **When a settlement is truthful**: a push or commit that is started ends, and behind a command
that has ended the evidence is complete. -/
structure Conclusive : Prop where
  ends : request.mode ≠ .stage → (effectOutcome host prepared).started →
    (effectOutcome host prepared).ended
  evident : (effectOutcome host prepared).ended → Evident host request prepared

/-! ## What is prepared -/

variable {host request authority prepared}

/-- What the preparation has found of the remote. -/
structure IsPrepared (host : GitHost) (request : GitEffectRequest urls) (authority : GitAuthority)
    (prepared : GitPrepared) : Prop where
  credential : request.remote.isSome → checkCredential authority.credentialValue = .ok ()
  url : prepared.remoteUrl = none ∨ prepared.remoteUrl = request.expectedRemoteUrl
  before : request.remote.isSome →
    prepared.remoteBefore = (listedBefore host request).shownOid.join

theorem observeRemote_spec {remoteUrl remoteBefore : Option String}
    (h : observeRemote host request authority = .ok (remoteUrl, remoteBefore)) :
    (request.remote.isSome → checkCredential authority.credentialValue = .ok ()) ∧
      (remoteUrl = none ∨ remoteUrl = request.expectedRemoteUrl) ∧
      (request.remote.isSome → remoteBefore = (listedBefore host request).shownOid.join) := by
  unfold observeRemote at h
  split at h
  · rename_i hremote
    cases h
    exact ⟨fun h => by simp [hremote] at h, .inl rfl, fun h => by simp [hremote] at h⟩
  · obtain ⟨_, -, h⟩ := bind_eq_ok.mp h
    obtain ⟨url, -, h⟩ := bind_eq_ok.mp h
    obtain ⟨_, hurl, h⟩ := bind_eq_ok.mp h
    obtain ⟨branch, hbranch, h⟩ := bind_eq_ok.mp h
    obtain ⟨before, hbefore, h⟩ := bind_eq_ok.mp h
    obtain ⟨_, hcredential, hbefore⟩ := bind_eq_ok.mp hbefore
    cases h
    have hurl : some url = request.expectedRemoteUrl := not_not.mp (refuseIf_eq_ok.mp hurl)
    refine ⟨fun _ => hcredential, .inr hurl, fun _ => ?_⟩
    have hlisted : listedBefore host request = .completed before := by
      rw [listedBefore, listing, ← hurl, require_eq_ok.mp hbranch]
      exact result_eq_ok.mp hbefore
    rw [hlisted, join_shownOid]

theorem prepareGit_spec (h : prepareGit host request authority = .ok prepared) :
    IsPrepared host request authority prepared := by
  iterate 15 obtain ⟨_, -, h⟩ := bind_eq_ok.mp h
  obtain ⟨⟨remoteUrl, remoteBefore⟩, hremote, h⟩ := bind_eq_ok.mp h
  obtain ⟨_, -, h⟩ := bind_eq_ok.mp h
  cases h
  obtain ⟨hcredential, hurl, hbefore⟩ := observeRemote_spec hremote
  exact ⟨hcredential, hurl, hbefore⟩

/-- The address of a request carries no credentials, and is reported as it is. -/
theorem redactUrl_expected : redactUrl urls request.expectedRemoteUrl =
    .ok request.expectedRemoteUrl := by
  have hexact := request.exact
  cases hurl : request.expectedRemoteUrl with
  | none => rfl
  | some url =>
    iterate 6 replace hexact := of_bind hexact
    simp only [hurl] at hexact
    obtain ⟨parsed, hparsed, hexact⟩ := bind_eq_ok.mp hexact
    obtain ⟨_, hplain, -⟩ := bind_eq_ok.mp hexact
    have hplain := not_or.mp (refuseIf_eq_ok.mp hplain)
    rw [redactUrl, hparsed, ok_bind, if_pos ⟨not_not.mp hplain.1, not_not.mp hplain.2⟩]
    rfl

theorem IsPrepared.redactUrl (h : IsPrepared host request authority prepared) :
    redactUrl urls prepared.remoteUrl = .ok prepared.remoteUrl := by
  rcases h.url with hurl | hurl
  · rw [hurl]
    rfl
  · rw [hurl]
    exact redactUrl_expected

/-! ## The command and what follows it -/

variable (host request) in
/-- What the branch was seen to point to behind the command. -/
def remoteAfter : Option String :=
  if request.remote.isSome then (listedAfter host request).shownOid.join else none

theorem IsPrepared.effect (h : IsPrepared host request authority prepared) :
    runEffect host request authority prepared = (effectOutcome host prepared).result := by
  unfold runEffect
  split
  · rw [GitHost.runRemote, h.credential ‹_›]
    rfl
  · rfl

theorem IsPrepared.observeRemoteAfter_eq_ok (h : IsPrepared host request authority prepared)
    {value : Option String} : observeRemoteAfter host request authority = .ok value ↔
      (request.remote.isSome → (listedAfter host request).ended) ∧
        value = remoteAfter host request := by
  unfold observeRemoteAfter remoteAfter
  split
  · rename_i hremote
    rw [GitHost.runRemote, h.credential hremote, ok_bind, bind_eq_ok]
    constructor
    · rintro ⟨process, hprocess, hvalue⟩
      have hlisted : listedAfter host request = .completed process :=
        result_eq_ok.mp hprocess
      rw [hlisted, join_shownOid]
      exact ⟨fun _ => rfl, (pure_eq_ok.mp hvalue).symm⟩
    · rintro ⟨hended, rfl⟩
      obtain ⟨process, hprocess⟩ := ended_iff.mp (hended hremote)
      refine ⟨process, result_eq_ok.mpr hprocess, ?_⟩
      rw [hprocess, join_shownOid]
      rfl
  · rename_i hremote
    rw [pure_eq_ok]
    exact ⟨fun hvalue => ⟨fun h => absurd h hremote, hvalue.symm⟩, fun h => h.2.symm⟩

/-- **When there is a result, and what it is settled as.** -/
theorem IsPrepared.exists_settleGit_iff (h : IsPrepared host request authority prepared)
    {P : EffectSettlement → Prop} :
    (∃ r, settleGit host request authority prepared = .ok r ∧ P r.settlement) ↔
      ∃ completed after, effectOutcome host prepared = .completed completed ∧
        headOutcome host = .completed after ∧
        (request.remote.isSome → (listedAfter host request).ended) ∧
        (∃ diff, host.run .diff (evidenceOf host request prepared).1 = .completed diff ∧
          ∃ reference, host.putBytes diff.stdout = .ok reference) ∧
        (host.run .names (evidenceOf host request prepared).2).ended ∧
        P (gitSettlement request.mode completed.returncode (revision after) prepared.remoteBefore
          (remoteAfter host request)) := by
  constructor
  · rintro ⟨r, hr, hP⟩
    rw [settleGit, h.effect] at hr
    obtain ⟨completed, hcompleted, hr⟩ := bind_eq_ok.mp hr
    obtain ⟨after, hafter, hr⟩ := bind_eq_ok.mp hr
    obtain ⟨value, hvalue, hr⟩ := bind_eq_ok.mp hr
    obtain ⟨diff, hdiff, hr⟩ := bind_eq_ok.mp hr
    obtain ⟨names, hnames, hr⟩ := bind_eq_ok.mp hr
    obtain ⟨reference, hreference, hr⟩ := bind_eq_ok.mp hr
    obtain ⟨url, -, hr⟩ := bind_eq_ok.mp hr
    cases hr
    obtain ⟨hlisted, rfl⟩ := h.observeRemoteAfter_eq_ok.mp hvalue
    have hhead : headOutcome host = .completed after := result_eq_ok.mp hafter
    have hevidence : evidenceOf host request prepared = evidenceArguments request
        prepared.beforeRevision (revision after) prepared.remoteBefore := by
      rw [evidenceOf, hhead]
      rfl
    rw [hevidence]
    exact ⟨completed, after, result_eq_ok.mp hcompleted, hhead, hlisted,
      ⟨diff, result_eq_ok.mp hdiff, reference, hreference⟩,
      ended_iff.mpr ⟨names, result_eq_ok.mp hnames⟩, hP⟩
  · rintro ⟨completed, after, hcompleted, hafter, hlisted, ⟨diff, hdiff, reference, hreference⟩,
      hnames, hP⟩
    have hevidence : evidenceOf host request prepared = evidenceArguments request
        prepared.beforeRevision (revision after) prepared.remoteBefore := by
      rw [evidenceOf, hafter]
      rfl
    obtain ⟨names, hnames⟩ := ended_iff.mp hnames
    rw [hevidence] at hdiff hnames
    have hhead : host.runGit .headAfter ["rev-parse", "HEAD"] = .ok after :=
      result_eq_ok.mpr hafter
    have hvalue := h.observeRemoteAfter_eq_ok.mpr ⟨hlisted, rfl⟩
    rw [settleGit, h.effect, hcompleted, result, ok_bind, hhead, ok_bind, hvalue,
      ok_bind]
    simp only [GitHost.runGit, hdiff, hnames, result, ok_bind, hreference, h.redactUrl]
    exact ⟨_, rfl, hP⟩

/-! ## The settlement -/

/-- A push names its remote. -/
theorem remote_of_isRemote (h : request.mode.isRemote) : request.remote.isSome := by
  have hexact := request.exact
  iterate 3 replace hexact := of_bind hexact
  obtain ⟨_, hnamed, -⟩ := bind_eq_ok.mp hexact
  have hnamed := not_and_not_right.mp (refuseIf_eq_ok.mp hnamed) h
  cases hremote : request.remote with
  | none => simp [truthy, hremote] at hnamed
  | some remote => rfl

theorem join_eq_some {value : Option (Option String)} {oid : String} :
    value.join = some oid ↔ value = some (some oid) := Option.join_eq_some_iff

variable {completed after : CompletedProcess}

/-- A push is settled as completed exactly when that is shown. -/
theorem gitSettlement_eq_completed_iff (completed : CompletedProcess) (before : Option String)
    (hremote : request.mode.isRemote) (hafter : headOutcome host = .completed after) :
    gitSettlement request.mode completed.returncode (revision after) before
        (remoteAfter host request) = .completed ↔ Shows host request prepared .completed := by
  have hvalue : remoteAfter host request = (listedAfter host request).shownOid.join :=
    if_pos (remote_of_isRemote hremote)
  have hresolved : (headOutcome host).resolved = revision after := by
    rw [hafter]
    rfl
  simp only [gitSettlement, Shows, hremote, if_true, hvalue, hresolved]
  cases htarget : revision after with
  | none =>
    simp only [ne_eq, not_true_eq_false, false_and, if_false, reduceCtorEq, exists_false, iff_false]
    split
    · rintro ⟨⟩
    · rintro ⟨⟩
  | some target =>
    simp only [ne_eq, reduceCtorEq, not_false_eq_true, true_and, join_eq_some,
      Option.some.injEq, exists_eq_left']
    constructor
    · intro h
      split at h
      · assumption
      · split at h <;> cases h
    · intro h
      rw [if_pos h]

/-- A push that is not completed is settled as absent exactly when the branch looks the same. -/
theorem gitSettlement_eq_absent_iff (completed : CompletedProcess) (before : Option String)
    (hremote : request.mode.isRemote) (hafter : headOutcome host = .completed after)
    (hshown : ¬ Shows host request prepared .completed) :
    gitSettlement request.mode completed.returncode (revision after) before
        (remoteAfter host request) = .absent ↔
      before = (listedAfter host request).shownOid.join := by
  have hvalue : remoteAfter host request = (listedAfter host request).shownOid.join :=
    if_pos (remote_of_isRemote hremote)
  have hnot := mt (gitSettlement_eq_completed_iff completed before hremote hafter).mp hshown
  rw [← hvalue]
  unfold gitSettlement at hnot ⊢
  rw [if_pos hremote] at hnot ⊢
  split at hnot
  · exact absurd rfl hnot
  · rename_i hcompleted
    rw [if_neg hcompleted, eq_comm (a := before)]
    split
    · rename_i hsame
      exact iff_of_true rfl hsame
    · rename_i hsame
      exact iff_of_false (by rintro ⟨⟩) hsame

/-- A settlement that is shown is uncertain where neither of the others is. -/
theorem eq_uncertain_of_shows {settlement : EffectSettlement}
    (h : Shows host request prepared settlement)
    (hcompleted : ¬ Shows host request prepared .completed)
    (habsent : ¬ Shows host request prepared .absent) : settlement = .uncertain := by
  cases settlement with
  | completed => exact absurd h hcompleted
  | absent => exact absurd h habsent
  | uncertain => rfl

/-- **What a push or commit is settled as is shown**, if the branch was seen where it looks the
same. -/
theorem shows_gitSettlement (h : IsPrepared host request authority prepared)
    (hcompleted : effectOutcome host prepared = .completed completed)
    (hafter : headOutcome host = .completed after)
    (hseen : request.mode.isRemote → ¬ Shows host request prepared .completed →
      (listedBefore host request).shownOid.join = (listedAfter host request).shownOid.join →
        Shows host request prepared .absent) :
    Shows host request prepared (gitSettlement request.mode completed.returncode (revision after)
      prepared.remoteBefore (remoteAfter host request)) := by
  by_cases hremote : request.mode.isRemote
  · have hbefore := h.before (remote_of_isRemote hremote)
    by_cases hshown : Shows host request prepared .completed
    · rw [(gitSettlement_eq_completed_iff _ _ hremote hafter).mpr hshown]
      exact hshown
    · have hnot := mt (gitSettlement_eq_completed_iff completed prepared.remoteBefore
        hremote hafter).mp hshown
      have habsent := gitSettlement_eq_absent_iff completed prepared.remoteBefore
        hremote hafter hshown
      generalize gitSettlement request.mode completed.returncode (revision after)
        prepared.remoteBefore (remoteAfter host request) = settlement at hnot habsent ⊢
      cases settlement with
      | completed => exact absurd rfl hnot
      | absent => exact hseen hremote hshown (hbefore ▸ habsent.mp rfl)
      | uncertain => trivial
  · by_cases hcode : completed.returncode = 0
    · simp only [gitSettlement, hremote, hcode, Shows]
      exact ⟨completed, hcompleted, hcode⟩
    · simp only [gitSettlement, hremote, hcode, Shows]
      exact ⟨completed, hcompleted, hcode⟩

/-- **The result is truthful exactly when what was observed is conclusive.** -/
theorem IsPrepared.truthful_iff (h : IsPrepared host request authority prepared) :
    Truthful host request prepared (settleGit host request authority prepared) ↔
      Conclusive host request prepared := by
  constructor
  · intro htruthful
    refine ⟨fun hmode hstarted => ?_, fun hended => ?_⟩
    · obtain ⟨r, hr, -⟩ := htruthful.settled hmode hstarted
      obtain ⟨completed, after, hcompleted, -⟩ :=
        (h.exists_settleGit_iff (P := fun _ => True)).mp ⟨r, hr, trivial⟩
      exact ended_iff.mpr ⟨completed, hcompleted⟩
    · obtain ⟨r, hr⟩ := htruthful.reported hended
      obtain ⟨completed, after, hcompleted, hafter, hlisted, hdiff, hnames, hsettlement⟩ :=
        (h.exists_settleGit_iff (P := fun settlement => settlement = r.settlement)).mp
          ⟨r, hr, rfl⟩
      refine ⟨ended_iff.mpr ⟨after, hafter⟩, hlisted, hdiff, hnames, ?_⟩
      intro hremote hshown hsame
      have hmode : request.mode ≠ .stage := by
        rintro hstage
        rw [hstage] at hremote
        cases hremote
      have hstarted : (effectOutcome host prepared).started := by
        rw [hcompleted]
        rfl
      obtain ⟨r', hr', hshows, -⟩ := htruthful.settled hmode hstarted
      obtain rfl : r = r' := Except.ok.inj (hr.symm.trans hr')
      rw [← hsettlement, (gitSettlement_eq_absent_iff _ _ hremote hafter hshown).mpr
        ((h.before (remote_of_isRemote hremote)).trans hsame)] at hshows
      exact hshows
  · intro hconclusive
    have hresult : (effectOutcome host prepared).ended →
        ∃ r, settleGit host request authority prepared = .ok r ∧
          Shows host request prepared r.settlement := by
      intro hended
      obtain ⟨completed, hcompleted⟩ := ended_iff.mp hended
      have hevident := hconclusive.evident hended
      obtain ⟨after, hafter⟩ := ended_iff.mp hevident.head
      exact h.exists_settleGit_iff.mpr ⟨completed, after, hcompleted, hafter, hevident.listed,
        hevident.diff, hevident.names, shows_gitSettlement h hcompleted hafter hevident.seen⟩
    refine ⟨fun hmode hstarted => ?_, fun hended => ?_⟩
    · obtain ⟨r, hr, hshows⟩ := hresult (hconclusive.ends hmode hstarted)
      exact ⟨r, hr, hshows, eq_uncertain_of_shows hshows⟩
    · obtain ⟨r, hr, -⟩ := hresult hended
      exact ⟨r, hr⟩

namespace GitSample

def sampleUrls : UrlLibrary where
  urlsplit _ := .ok
    { scheme := "https", hostname := some "h", port := .ok none, path := "/r", query := "",
      fragment := "" }
  urlunsplit _ _ _ _ _ := "https://h/r"

def pushRequest : GitEffectRequest sampleUrls where
  mode := .push
  workspace := "/w"
  remote := some "o"
  branch := some "m"
  expectedRemoteUrl := some "https://h/r"
  exact := rfl

def pushAuthority : GitAuthority where
  authorization :=
    { planFingerprint := "p", identity := "dev", objectiveClass := "git-effect", repository := "r"
      outcome := "git-effect", role := "dev", capability := "git.push"
      effectClass := "repository_remote_write", effects := ["git.push"], remotes := ["o"]
      branches := ["m"], resources := { timeoutSeconds := 120, network := true } }
  policy :=
    { documents := [{ sourceId := "d", revision := "1"
                      rules := [{ ruleId := "git", decision := .allow, scope := {} }] }]
      fingerprint := "f" }
  now := 0

/-- The output of a command that succeeds. -/
def succeeds (stdout : String) : GitOutcome := .completed ⟨0, stdout, ""⟩

/-- The remote cannot be reached, before and after. -/
def unreachableHost : GitHost where
  run call _ := match call with
    | .showToplevel => succeeds "/w"
    | .absoluteGitDir => succeeds "/w/.git"
    | .showCurrent => succeeds "m"
    | .headBefore | .headAfter => succeeds "a"
    | .getUrl => succeeds "https://h/r"
    | .lsRemoteBefore | .lsRemoteAfter | .effect => .completed ⟨128, "", "unreachable"⟩
    | .status | .stagedNames | .diff | .names => succeeds ""
  resolveStrict path := .ok path
  resolve path := .ok path
  putBytes _ := .ok "artifact:1"

def pushPrepared : GitPrepared where
  repositoryRoot := "/w"
  gitDirectory := "/w/.git"
  currentBranch := some "m"
  beforeRevision := some "a"
  remoteUrl := some "https://h/r"
  remoteBefore := none
  argv := ["push", "https://h/r", "m"]

end GitSample

end Mishkan.Edits
