import Mathlib.Data.List.Infix

/-!
# Foundations/Procedure — computations made of calls that may fail or be the last

A `Procedure` is a program that works by *calls* on a state others share and on a state of its own:
each call happens at once, may fail, and may be the point where the process ends.  What the world
does at each call is a `Host`: what others do to the shared state before it, and whether it fails or
the process stops there.  An exception travels through `handle` and `finally_` as it does through
`try`; the end of the process passes both.

A run counts its calls and notes which of them failed.  `calm` is the host where nothing happens
that the calls do not do themselves.
-/

namespace Procedure

/-- What may come in place of a call. -/
inductive Fault (φ : Type) where
  /-- The call fails. -/
  | failure (f : φ)
  /-- The process ends before the call. -/
  | crash
deriving DecidableEq

/-- What the world does at each call: what others do to the shared state before it, and what comes
in its place. -/
structure Host (σ φ : Type) where
  before : Nat → σ → σ
  fault : Nat → Option (Fault φ)

/-- How a run ends that does not return. -/
inductive Stop (ε : Type) where
  | raised (error : ε)
  | crashed
deriving DecidableEq

/-- The shared state, the program's own, how many calls were made, and which of them failed. -/
structure Machine (σ δ : Type) where
  state : σ
  own : δ
  calls : Nat := 0
  failed : List Nat := []
deriving DecidableEq

variable {σ δ : Type} {m m' m'' : Machine σ δ}

/-- A run leads from one machine to another: calls are counted, and those that failed are noted. -/
structure Machine.Leads (m m' : Machine σ δ) : Prop where
  calls : m.calls ≤ m'.calls
  failed : ∃ new, m'.failed = new ++ m.failed ∧ ∀ n ∈ new, m.calls ≤ n ∧ n < m'.calls

namespace Machine.Leads

theorem refl (m : Machine σ δ) : m.Leads m := ⟨le_rfl, [], rfl, by simp⟩

theorem trans (h : m.Leads m') (h' : m'.Leads m'') : m.Leads m'' := by
  obtain ⟨hcalls, new, hnew, hrange⟩ := h
  obtain ⟨hcalls', new', hnew', hrange'⟩ := h'
  refine ⟨hcalls.trans hcalls', new' ++ new, by rw [hnew', hnew, List.append_assoc], ?_⟩
  intro n hn
  rcases List.mem_append.1 hn with hn | hn
  · exact ⟨hcalls.trans (hrange' n hn).1, (hrange' n hn).2⟩
  · exact ⟨(hrange n hn).1, (hrange n hn).2.trans_le hcalls'⟩

/-- One more call that did not fail. -/
theorem made {s : σ} {o : δ} : m.Leads ⟨s, o, m.calls + 1, m.failed⟩ :=
  ⟨Nat.le_succ _, [], rfl, by simp⟩

/-- One more call, which failed. -/
theorem missed {s : σ} {o : δ} : m.Leads ⟨s, o, m.calls + 1, m.calls :: m.failed⟩ :=
  ⟨Nat.le_succ _, [m.calls], rfl, by simp⟩

/-- **When nothing has failed at the end, nothing had on the way.** -/
theorem quiet (h : m.Leads m') (h' : m'.Leads m'') (hquiet : m''.failed = m.failed) :
    m'.failed = m.failed := by
  obtain ⟨-, new, hnew, -⟩ := h
  obtain ⟨-, new', hnew', -⟩ := h'
  have hlength := congrArg List.length hquiet
  rw [hnew', hnew, List.length_append, List.length_append] at hlength
  have hnil : new = [] := List.length_eq_zero_iff.1 (by omega)
  rw [hnew, hnil, List.nil_append]

end Machine.Leads

end Procedure

/-- A program that works on a shared state and one of its own by calls. -/
structure Procedure (σ δ φ ε α : Type) where
  run : Procedure.Host σ φ → Procedure.Machine σ δ →
    Except (Procedure.Stop ε) α × Procedure.Machine σ δ
  leads : ∀ host (m : Procedure.Machine σ δ), m.Leads (run host m).2

namespace Procedure

variable {σ δ φ ε α β : Type}

/-- Return at once. -/
def ret (a : α) : Procedure σ δ φ ε α where
  run _ m := (.ok a, m)
  leads _ m := .refl m

/-- Raise an error. -/
def raise (e : ε) : Procedure σ δ φ ε α where
  run _ m := (.error (.raised e), m)
  leads _ m := .refl m

/-- How many calls were made. -/
def count : Procedure σ δ φ ε Nat where
  run _ m := (.ok m.calls, m)
  leads _ m := .refl m

/-- One program after another. -/
def andThen (x : Procedure σ δ φ ε α) (f : α → Procedure σ δ φ ε β) : Procedure σ δ φ ε β where
  run host m :=
    match x.run host m with
    | (.ok a, m') => (f a).run host m'
    | (.error stop, m') => (.error stop, m')
  leads host m := by
    have hx := x.leads host m
    rcases hrun : x.run host m with ⟨⟨stop⟩ | ⟨a⟩, m'⟩ <;> rw [hrun] at hx
    · exact hx
    · exact hx.trans ((f a).leads host m')

instance : Monad (Procedure σ δ φ ε) where
  pure := ret
  bind := andThen

/-- One call; it may fail of itself. -/
def call (error : φ → ε) (f : σ → δ → Except ε (α × σ × δ)) : Procedure σ δ φ ε α where
  run host m :=
    match host.fault m.calls with
    | some .crash =>
      (.error .crashed, ⟨host.before m.calls m.state, m.own, m.calls + 1, m.failed⟩)
    | some (.failure e) =>
      (.error (.raised (error e)),
        ⟨host.before m.calls m.state, m.own, m.calls + 1, m.calls :: m.failed⟩)
    | none =>
      match f (host.before m.calls m.state) m.own with
      | .ok (a, s', o') => (.ok a, ⟨s', o', m.calls + 1, m.failed⟩)
      | .error e =>
        (.error (.raised e),
          ⟨host.before m.calls m.state, m.own, m.calls + 1, m.calls :: m.failed⟩)
  leads host m := by
    split
    · exact .made
    · exact .missed
    · split
      · exact .made
      · exact .missed

/-- `try … except`: some errors are answered by another program. -/
def handle (x : Procedure σ δ φ ε α) (handler : ε → Option (Procedure σ δ φ ε α)) :
    Procedure σ δ φ ε α where
  run host m :=
    match x.run host m with
    | (.error (.raised e), m') =>
      match handler e with
      | some y => y.run host m'
      | none => (.error (.raised e), m')
    | other => other
  leads host m := by
    have hx := x.leads host m
    rcases hrun : x.run host m with ⟨⟨⟨e⟩ | _⟩ | ⟨a⟩, m'⟩ <;> rw [hrun] at hx
    · simp only []
      split
      · exact hx.trans (Procedure.leads _ host m')
      · exact hx
    · exact hx
    · exact hx

/-- Pass a result on once a last program has run; an error of that goes first. -/
def passOn (last : Procedure σ δ φ ε Unit) (result : Except (Stop ε) α) : Procedure σ δ φ ε α where
  run host m :=
    match last.run host m with
    | (.ok (), m') => (result, m')
    | (.error stop, m') => (.error stop, m')
  leads host m := by
    have hlast := last.leads host m
    rcases hrun : last.run host m with ⟨⟨stop⟩ | ⟨u⟩, m'⟩ <;> rw [hrun] at hlast <;> exact hlast

/-- `try … finally`: a last program runs however the first ends.  The end of the process skips
it. -/
def finally_ (x : Procedure σ δ φ ε α) (last : Procedure σ δ φ ε Unit) : Procedure σ δ φ ε α where
  run host m :=
    match x.run host m with
    | (.error .crashed, m') => (.error .crashed, m')
    | (.error (.raised e), m') => (passOn last (.error (.raised e))).run host m'
    | (.ok a, m') => (passOn last (.ok a)).run host m'
  leads host m := by
    have hx := x.leads host m
    rcases hrun : x.run host m with ⟨⟨⟨e⟩ | _⟩ | ⟨a⟩, m'⟩ <;> rw [hrun] at hx
    · exact hx.trans ((passOn last _).leads host m')
    · exact hx
    · exact hx.trans ((passOn last _).leads host m')

/-- A program that has no state of its own, in one that has. -/
def within (x : Procedure σ Unit φ ε α) : Procedure σ δ φ ε α where
  run host m :=
    ((x.run host ⟨m.state, (), m.calls, m.failed⟩).1,
      ⟨(x.run host ⟨m.state, (), m.calls, m.failed⟩).2.state, m.own,
        (x.run host ⟨m.state, (), m.calls, m.failed⟩).2.calls,
        (x.run host ⟨m.state, (), m.calls, m.failed⟩).2.failed⟩)
  leads host m := by
    obtain ⟨hcalls, hfailed⟩ := x.leads host ⟨m.state, (), m.calls, m.failed⟩
    exact ⟨hcalls, hfailed⟩

/-- The host where nothing else happens. -/
def calm : Host σ φ where
  before _ s := s
  fault _ := none

/-! ## Runs -/

variable {host : Host σ φ} {m m' : Machine σ δ} {x : Procedure σ δ φ ε α}
  {f : α → Procedure σ δ φ ε β} {a : α} {b : β} {stop : Stop ε} {e : ε}

@[simp] theorem run_pure : (pure a : Procedure σ δ φ ε α).run host m = (.ok a, m) := rfl

@[simp] theorem run_raise :
    (raise e : Procedure σ δ φ ε α).run host m = (.error (.raised e), m) := rfl

@[simp] theorem run_count : (count : Procedure σ δ φ ε Nat).run host m = (.ok m.calls, m) := rfl

theorem run_bind : (x >>= f).run host m = match x.run host m with
    | (.ok a, m') => (f a).run host m'
    | (.error stop, m') => (.error stop, m') := rfl

/-- **A sequence returns exactly when both of its halves do.** -/
theorem bind_eq_ok : (x >>= f).run host m = (.ok b, m') ↔
    ∃ a m1, x.run host m = (.ok a, m1) ∧ (f a).run host m1 = (.ok b, m') := by
  rw [run_bind]
  rcases x.run host m with ⟨⟨stop⟩ | ⟨a⟩, m1⟩
  · simp
  · simp

/-- **A call returns exactly when nothing comes in its place and it does not fail of itself.** -/
theorem call_eq_ok {error : φ → ε} {g : σ → δ → Except ε (α × σ × δ)} :
    (call error g).run host m = (.ok a, m') ↔ host.fault m.calls = none ∧
      ∃ s' o', g (host.before m.calls m.state) m.own = .ok (a, s', o') ∧
        m' = ⟨s', o', m.calls + 1, m.failed⟩ := by
  unfold call
  rcases hfault : host.fault m.calls with _ | _ | _
  · rcases hg : g (host.before m.calls m.state) m.own with e | ⟨b, s', o'⟩
    · simp [hfault, hg]
    · simp only [hfault, hg, Prod.mk.injEq, Except.ok.injEq, true_and]
      constructor
      · rintro ⟨rfl, rfl⟩
        exact ⟨s', o', ⟨rfl, rfl, rfl⟩, rfl⟩
      · rintro ⟨_, _, ⟨rfl, rfl, rfl⟩, rfl⟩
        exact ⟨rfl, rfl⟩
  · simp [hfault]
  · simp [hfault]

theorem run_within {x : Procedure σ Unit φ ε α} {r : Except (Stop ε) α} {m₁ : Machine σ Unit}
    (h : x.run host ⟨m.state, (), m.calls, m.failed⟩ = (r, m₁)) :
    (within x).run host m = (r, ⟨m₁.state, m.own, m₁.calls, m₁.failed⟩) := by
  simp only [within, h]

/-! ## Runs where nothing fails

`Ends x m P` says: left alone by others, a run of `x` from `m` in which no call fails does not
crash, and `P` holds of its result and of the machine it ends in. -/

/-- The result of a run that did not crash. -/
def ended : Except ε α → Except (Stop ε) α
  | .ok a => .ok a
  | .error e => .error (.raised e)

def Ends (x : Procedure σ δ φ ε α) (m : Machine σ δ)
    (P : Except ε α → Machine σ δ → Prop) : Prop :=
  ∀ r m', x.run calm m = (r, m') → m'.failed = m.failed → ∃ r', r = ended r' ∧ P r' m'

namespace Ends

variable {P Q : Except ε α → Machine σ δ → Prop} {R : Except ε β → Machine σ δ → Prop}

theorem mono (h : Ends x m P) (himp : ∀ r m', P r m' → Q r m') : Ends x m Q := by
  intro r m' hrun hquiet
  obtain ⟨r', hr, hP⟩ := h r m' hrun hquiet
  exact ⟨r', hr, himp r' m' hP⟩

theorem pure (h : P (.ok a) m) : Ends (pure a : Procedure σ δ φ ε α) m P := by
  intro r m' hrun _
  rw [run_pure, Prod.mk.injEq] at hrun
  obtain ⟨rfl, rfl⟩ := hrun
  exact ⟨.ok a, rfl, h⟩

theorem raise (h : P (.error e) m) : Ends (Procedure.raise e : Procedure σ δ φ ε α) m P := by
  intro r m' hrun _
  rw [run_raise, Prod.mk.injEq] at hrun
  obtain ⟨rfl, rfl⟩ := hrun
  exact ⟨.error e, rfl, h⟩

theorem count {P : Except ε Nat → Machine σ δ → Prop} (h : P (.ok m.calls) m) :
    Ends (Procedure.count : Procedure σ δ φ ε Nat) m P := by
  intro r m' hrun _
  rw [run_count, Prod.mk.injEq] at hrun
  obtain ⟨rfl, rfl⟩ := hrun
  exact ⟨.ok m.calls, rfl, h⟩

/-- Of a call only what it does when it succeeds counts. -/
theorem call {error : φ → ε} {g : σ → δ → Except ε (α × σ × δ)}
    (h : ∀ a s' o', g m.state m.own = .ok (a, s', o') →
      P (.ok a) ⟨s', o', m.calls + 1, m.failed⟩) : Ends (Procedure.call error g) m P := by
  intro r m' hrun hquiet
  rcases hg : g m.state m.own with e | ⟨a, s', o'⟩
  · have hrun' : (Procedure.call error g).run calm m = (.error (.raised e),
        ⟨m.state, m.own, m.calls + 1, m.calls :: m.failed⟩) := by simp [Procedure.call, calm, hg]
    rw [hrun', Prod.mk.injEq] at hrun
    obtain ⟨-, rfl⟩ := hrun
    exact absurd hquiet (by simp)
  · have hrun' : (Procedure.call error g).run calm m =
        (.ok a, ⟨s', o', m.calls + 1, m.failed⟩) := by simp [Procedure.call, calm, hg]
    rw [hrun', Prod.mk.injEq] at hrun
    obtain ⟨rfl, rfl⟩ := hrun
    exact ⟨.ok a, rfl, h a s' o' hg⟩

/-- What a sequence ends with: the second half goes on from where the first one returned. -/
theorem bind (h : Ends x m fun r m1 => match r with
      | .ok a => Ends (f a) m1 R
      | .error e => R (.error e) m1) : Ends (x >>= f) m R := by
  intro r m' hrun hquiet
  rw [run_bind] at hrun
  have hlead := x.leads calm m
  rcases hx : x.run calm m with ⟨r1, m1⟩
  rw [hx] at hrun hlead
  rcases r1 with stop | a
  · rw [Prod.mk.injEq] at hrun
    obtain ⟨rfl, rfl⟩ := hrun
    obtain ⟨r', hr, hP⟩ := h _ _ hx hquiet
    rcases r' with e | a
    · exact ⟨.error e, by rw [ended] at hr ⊢; exact congrArg _ (Except.error.inj hr), hP⟩
    · cases hr
  · have hlead' := (f a).leads calm m1
    rw [show (f a).run calm m1 = (r, m') from hrun] at hlead'
    have hquiet1 := hlead.quiet hlead' hquiet
    obtain ⟨r', hr, hP⟩ := h _ _ hx hquiet1
    rcases r' with e | a'
    · cases hr
    · obtain rfl : a = a' := Except.ok.inj hr
      exact hP r m' hrun (hquiet.trans hquiet1.symm)

theorem handle {handler : ε → Option (Procedure σ δ φ ε α)} (h : Ends x m fun r m1 => match r with
      | .ok a => P (.ok a) m1
      | .error e => match handler e with
        | some y => Ends y m1 P
        | none => P (.error e) m1) : Ends (x.handle handler) m P := by
  intro r m' hrun hquiet
  have hlead := x.leads calm m
  rcases hx : x.run calm m with ⟨r1, m1⟩
  simp only [Procedure.handle, hx] at hrun
  rw [hx] at hlead
  rcases r1 with (e | _) | a
  · rcases hhandler : handler e with _ | y
    · simp only [hhandler, Prod.mk.injEq] at hrun
      obtain ⟨rfl, rfl⟩ := hrun
      obtain ⟨r', hr, hP⟩ := h _ _ hx hquiet
      rcases r' with e' | a
      · obtain rfl : e = e' := by simpa [ended] using hr
        simp only [hhandler] at hP
        exact ⟨.error e, rfl, hP⟩
      · cases hr
    · simp only [hhandler] at hrun
      have hlead' := y.leads calm m1
      rw [hrun] at hlead'
      have hquiet1 := hlead.quiet hlead' hquiet
      obtain ⟨r', hr, hP⟩ := h _ _ hx hquiet1
      rcases r' with e' | a
      · obtain rfl : e = e' := by simpa [ended] using hr
        simp only [hhandler] at hP
        exact hP r m' hrun (hquiet.trans hquiet1.symm)
      · cases hr
  · rw [Prod.mk.injEq] at hrun
    obtain ⟨-, rfl⟩ := hrun
    obtain ⟨r', hr, -⟩ := h _ _ hx hquiet
    rcases r' with e | a <;> cases hr
  · rw [Prod.mk.injEq] at hrun
    obtain ⟨rfl, rfl⟩ := hrun
    obtain ⟨r', hr, hP⟩ := h _ _ hx hquiet
    rcases r' with e | a'
    · cases hr
    · obtain rfl : a = a' := Except.ok.inj hr
      exact ⟨.ok a, rfl, hP⟩

/-- The result is passed on when the last program returns. -/
theorem passOn {last : Procedure σ δ φ ε Unit} {result : Except ε α}
    (h : Ends last m fun r m1 => match r with
      | .ok () => P result m1
      | .error e => P (.error e) m1) : Ends (Procedure.passOn last (ended result)) m P := by
  intro r m' hrun hquiet
  rcases hlast : last.run calm m with ⟨r1, m1⟩
  rcases r1 with stop | ⟨⟩
  · simp only [Procedure.passOn, hlast, Prod.mk.injEq] at hrun
    obtain ⟨rfl, rfl⟩ := hrun
    obtain ⟨r', hr, hP⟩ := h _ _ hlast hquiet
    rcases r' with e | ⟨⟩
    · exact ⟨.error e, congrArg _ (Except.error.inj hr), hP⟩
    · cases hr
  · simp only [Procedure.passOn, hlast, Prod.mk.injEq] at hrun
    obtain ⟨rfl, rfl⟩ := hrun
    obtain ⟨r', hr, hP⟩ := h _ _ hlast hquiet
    rcases r' with e | ⟨⟩
    · cases hr
    · exact ⟨result, rfl, hP⟩

theorem finally_ {last : Procedure σ δ φ ε Unit} (h : Ends x m fun r m1 =>
      Ends last m1 fun r' m2 => match r' with
        | .ok () => P r m2
        | .error e => P (.error e) m2) : Ends (x.finally_ last) m P := by
  intro r m' hrun hquiet
  have hlead := x.leads calm m
  rcases hx : x.run calm m with ⟨r1, m1⟩
  rw [hx] at hlead
  have hlead' : ∀ result, (Procedure.passOn last (ended result)).run calm m1 = (r, m') →
      m1.Leads m' := by
    intro result hpass
    have := (Procedure.passOn last (ended result)).leads calm m1
    rwa [hpass] at this
  rcases r1 with (e | _) | a
  · have hpass : (Procedure.passOn last (ended (.error e))).run calm m1 = (r, m') := by
      simpa only [Procedure.finally_, hx, ended] using hrun
    have hquiet1 := hlead.quiet (hlead' _ hpass) hquiet
    obtain ⟨r', hr, hP⟩ := h _ _ hx hquiet1
    rcases r' with e' | a
    · obtain rfl : e = e' := by simpa [ended] using hr
      exact hP.passOn r m' hpass (hquiet.trans hquiet1.symm)
    · cases hr
  · simp only [Procedure.finally_, hx, Prod.mk.injEq] at hrun
    obtain ⟨-, rfl⟩ := hrun
    obtain ⟨r', hr, -⟩ := h _ _ hx hquiet
    rcases r' with e | a <;> cases hr
  · have hpass : (Procedure.passOn last (ended (.ok a))).run calm m1 = (r, m') := by
      simpa only [Procedure.finally_, hx, ended] using hrun
    have hquiet1 := hlead.quiet (hlead' _ hpass) hquiet
    obtain ⟨r', hr, hP⟩ := h _ _ hx hquiet1
    rcases r' with e | a'
    · cases hr
    · obtain rfl : a = a' := Except.ok.inj hr
      exact hP.passOn r m' hpass (hquiet.trans hquiet1.symm)

end Ends

/-! ## Programs without a state of their own

`Returns x s Q`: left alone at a state `s`, a program in which no call fails returns, with `Q` of
what it returns and of the state it leaves.  `Refuses x s`: it raises an error. -/

def Returns (x : Procedure σ Unit φ ε α) (s : σ) (Q : α → σ → Prop) : Prop :=
  ∀ m : Machine σ Unit, m.state = s → Ends x m fun r m' => ∃ a, r = .ok a ∧ Q a m'.state

def Refuses (x : Procedure σ Unit φ ε α) (s : σ) : Prop :=
  ∀ m : Machine σ Unit, m.state = s → Ends x m fun r _ => ∃ e, r = .error e

variable {s : σ} {m : Machine σ Unit} {x : Procedure σ Unit φ ε α} {f : α → Procedure σ Unit φ ε β}
  {a : α}
  {last : Procedure σ Unit φ ε Unit} {handler : ε → Option (Procedure σ Unit φ ε α)}
  {Q Q' : α → σ → Prop} {R : β → σ → Prop}

namespace Returns

theorem run (h : Returns x m.state Q) (hquiet : (x.run calm m).2.failed = m.failed) :
    ∃ a, (x.run calm m).1 = .ok a ∧ Q a (x.run calm m).2.state := by
  obtain ⟨_, hr, a, rfl, hQ⟩ := h m rfl _ _ rfl hquiet
  exact ⟨a, hr, hQ⟩

theorem mono (h : Returns x s Q) (himp : ∀ a s', Q a s' → Q' a s') : Returns x s Q' := by
  intro m hm
  refine (h m hm).mono ?_
  rintro _ m' ⟨a, rfl, hQ⟩
  exact ⟨a, rfl, himp a m'.state hQ⟩

theorem pure (h : Q a s) : Returns (pure a : Procedure σ Unit φ ε α) s Q :=
  fun _ hm => .pure ⟨a, rfl, hm ▸ h⟩

theorem count {Q : Nat → σ → Prop} (h : ∀ n, Q n s) :
    Returns (Procedure.count : Procedure σ Unit φ ε Nat) s Q :=
  fun m hm => .count ⟨m.calls, rfl, hm ▸ h m.calls⟩

theorem bind (h : Returns x s Q) (hf : ∀ a s', Q a s' → Returns (f a) s' R) :
    Returns (x >>= f) s R := by
  intro m hm
  refine .bind ((h m hm).mono ?_)
  rintro _ m' ⟨a, rfl, hQ⟩
  exact hf a m'.state hQ m' rfl

theorem call {error : φ → ε} {g : σ → Unit → Except ε (α × σ × Unit)}
    (h : ∀ a s' o', g s () = .ok (a, s', o') → Q a s') : Returns (Procedure.call error g) s Q := by
  intro m hm
  refine .call fun a s' o' hg => ⟨a, rfl, h a s' o' ?_⟩
  rw [← hm]
  exact hg

/-- A program that returns never meets its handler. -/
theorem handle (h : Returns x s Q) : Returns (x.handle handler) s Q := by
  intro m hm
  refine .handle ((h m hm).mono ?_)
  rintro _ m' ⟨a, rfl, hQ⟩
  exact ⟨a, rfl, hQ⟩

theorem finally_ (h : Returns x s Q)
    (hlast : ∀ a s', Q a s' → Returns last s' fun _ s'' => Q' a s'') :
    Returns (x.finally_ last) s Q' := by
  intro m hm
  refine .finally_ ((h m hm).mono ?_)
  rintro _ m' ⟨a, rfl, hQ⟩
  refine (hlast a m'.state hQ m' rfl).mono ?_
  rintro _ m'' ⟨⟨⟩, rfl, hQ'⟩
  exact ⟨a, rfl, hQ'⟩

end Returns

namespace Refuses

theorem run (h : Refuses x m.state) (hquiet : (x.run calm m).2.failed = m.failed) :
    ∃ e, (x.run calm m).1 = .error (.raised e) := by
  obtain ⟨_, hr, e, rfl⟩ := h m rfl _ _ rfl hquiet
  exact ⟨e, hr⟩

theorem raise (e : ε) : Refuses (raise e : Procedure σ Unit φ ε α) s := fun _ _ => .raise ⟨e, rfl⟩

theorem bind (h : Refuses x s) : Refuses (x >>= f) s := by
  intro m hm
  refine .bind ((h m hm).mono ?_)
  rintro _ m' ⟨e, rfl⟩
  exact ⟨e, rfl⟩

theorem bind_right (h : Returns x s Q) (hf : ∀ a s', Q a s' → Refuses (f a) s') :
    Refuses (x >>= f) s := by
  intro m hm
  refine .bind ((h m hm).mono ?_)
  rintro _ m' ⟨a, rfl, hQ⟩
  exact hf a m'.state hQ m' rfl

theorem handle (h : Refuses x s) (hhandler : ∀ e y, handler e = some y → ∀ s', Refuses y s') :
    Refuses (x.handle handler) s := by
  intro m hm
  refine .handle ((h m hm).mono ?_)
  rintro _ m' ⟨e, rfl⟩
  rcases he : handler e with _ | y <;> simp only [he]
  · exact ⟨e, rfl⟩
  · exact hhandler e y he m'.state m' rfl

theorem finally_ (h : Refuses x s) (hlast : ∀ s', Returns last s' fun _ _ => True) :
    Refuses (x.finally_ last) s := by
  intro m hm
  refine .finally_ ((h m hm).mono ?_)
  rintro _ m' ⟨e, rfl⟩
  refine (hlast m'.state m' rfl).mono ?_
  rintro _ m'' ⟨⟨⟩, rfl, -⟩
  exact ⟨e, rfl⟩

end Refuses

/-! ## The call a run ends with

Errors of a kind that only calls raise show which call was the last: `Settled` programs end with
such an error exactly when their last call failed. -/

namespace Machine

/-- The calls that are noted were made. -/
def Valid (m : Machine σ δ) : Prop := ∀ n ∈ m.failed, n < m.calls

/-- Calls were made, and the last one failed. -/
def LastFailed (m m' : Machine σ δ) : Prop := m.calls < m'.calls ∧ m'.calls - 1 ∈ m'.failed

instance (m : Machine σ δ) : Decidable m.Valid :=
  inferInstanceAs (Decidable (∀ n ∈ m.failed, n < m.calls))

instance (m m' : Machine σ δ) : Decidable (m.LastFailed m') :=
  inferInstanceAs (Decidable (_ ∧ _))

variable {m m' m'' : Machine σ δ}

theorem Valid.leads (h : m.Valid) (hlead : m.Leads m') : m'.Valid := by
  obtain ⟨hcalls, new, hnew, hrange⟩ := hlead
  intro n hn
  rw [hnew] at hn
  rcases List.mem_append.1 hn with hn | hn
  · exact (hrange n hn).2
  · exact (h n hn).trans_le hcalls

theorem not_lastFailed_self : ¬ m.LastFailed m := fun h => lt_irrefl _ h.1

/-- Where the calls before did not end with a failure, only those that follow can. -/
theorem lastFailed_iff (h : m.Leads m') (hlast : ¬ m.LastFailed m') (h' : m'.Leads m'') :
    m.LastFailed m'' ↔ m'.LastFailed m'' := by
  have hcalls := h.calls
  have hcalls' := h'.calls
  constructor
  · rintro ⟨hlt, hmem⟩
    refine ⟨lt_of_le_of_ne hcalls' fun heq => hlast ?_, hmem⟩
    obtain ⟨new, hnew, hrange⟩ := h'.failed
    rw [hnew] at hmem
    rcases List.mem_append.1 hmem with hmem | hmem
    · exact absurd (hrange _ hmem).2 (by have := (hrange _ hmem).1; omega)
    · exact ⟨by omega, by rwa [heq]⟩
  · rintro ⟨hlt, hmem⟩
    exact ⟨hcalls.trans_lt hlt, hmem⟩

/-- A call that did not fail is not noted. -/
theorem Valid.not_lastFailed {s : σ} {o : δ} (h : m.Valid) :
    ¬ m.LastFailed ⟨s, o, m.calls + 1, m.failed⟩ := by
  rintro ⟨-, hmem⟩
  have hlt := h _ hmem
  simp only [Nat.add_sub_cancel] at hlt
  exact lt_irrefl _ hlt

theorem lastFailed_missed {s : σ} {o : δ} : m.LastFailed ⟨s, o, m.calls + 1, m.calls :: m.failed⟩ :=
  ⟨Nat.lt_succ_self _, by simp⟩

end Machine

/-- A result says whether the last call failed: an error of the kind, or anything else. -/
def Classified (kind : ε → Prop) (m : Machine σ δ) :
    Except (Stop ε) α × Machine σ δ → Prop
  | (.ok _, m') => ¬ m.LastFailed m'
  | (.error (.raised e), m') => kind e ↔ m.LastFailed m'
  | (.error .crashed, _) => True

/-- Every run of a program says by its result whether its last call failed. -/
def Settled (kind : ε → Prop) (x : Procedure σ δ φ ε α) : Prop :=
  ∀ host (m : Machine σ δ), m.Valid → Classified kind m (x.run host m)

namespace Settled

variable {kind : ε → Prop} {x : Procedure σ δ φ ε α} {f : α → Procedure σ δ φ ε β} {a : α} {e : ε}

theorem pure : Settled kind (pure a : Procedure σ δ φ ε α) :=
  fun _ _ _ => Machine.not_lastFailed_self

theorem raise (h : ¬ kind e) : Settled kind (raise e : Procedure σ δ φ ε α) :=
  fun _ _ _ => iff_of_false h Machine.not_lastFailed_self

theorem call {error : φ → ε} {g : σ → δ → Except ε (α × σ × δ)} (herror : ∀ f, kind (error f))
    (hg : ∀ s o e, g s o = .error e → kind e) : Settled kind (call error g) := by
  intro host m hm
  unfold Procedure.call
  rcases hfault : host.fault m.calls with _ | f | _
  · rcases hfails : g (host.before m.calls m.state) m.own with e | ⟨a, s', o'⟩
    · simp only [hfault, hfails]
      exact iff_of_true (hg _ _ _ hfails) Machine.lastFailed_missed
    · simp only [hfault, hfails]
      exact hm.not_lastFailed
  · simp only [hfault]
    exact iff_of_true (herror f) Machine.lastFailed_missed
  · simp only [hfault]
    trivial

/-- **A sequence of settled programs is settled.** -/
theorem bind (h : Settled kind x) (hf : ∀ a, Settled kind (f a)) : Settled kind (x >>= f) := by
  intro host m hm
  have hx := h host m hm
  have hlead := x.leads host m
  rw [run_bind]
  rcases hrun : x.run host m with ⟨(e | _) | a, m1⟩ <;> rw [hrun] at hx hlead
  · exact hx
  · trivial
  · have hfa := hf a host m1 (hm.leads hlead)
    have hlead' := (f a).leads host m1
    rcases hrun' : (f a).run host m1 with ⟨(e | _) | b, m2⟩ <;> rw [hrun'] at hfa hlead'
    all_goals simp only [hrun']
    · exact hfa.trans (Machine.lastFailed_iff hlead hx hlead').symm
    · trivial
    · exact fun hlast => hfa ((Machine.lastFailed_iff hlead hx hlead').1 hlast)

theorem within {x : Procedure σ Unit φ ε α} (h : Settled kind x) :
    Settled kind (within x : Procedure σ δ φ ε α) := by
  intro host m hm
  have hx := h host ⟨m.state, (), m.calls, m.failed⟩ hm
  rcases hrun : x.run host ⟨m.state, (), m.calls, m.failed⟩ with ⟨(e | _) | a, m1⟩
  all_goals rw [hrun] at hx; rw [run_within hrun]
  · exact hx
  · trivial
  · exact hx

/-- **A settled program that runs last in any case settles one that raises no error of the
kind.** -/
theorem finally_ {last : Procedure σ δ φ ε Unit} (hlast : ∀ host (m m' : Machine σ δ) r, m.Valid →
      last.run host m = (r, m') → m.calls < m'.calls ∧ Classified kind m (r, m'))
    (hx : ∀ host m e m', x.run host m = (.error (.raised e), m') → ¬ kind e) :
    Settled kind (x.finally_ last) := by
  intro host m hm
  have hlead := x.leads host m
  rcases hrun : x.run host m with ⟨(e | _) | a, m1⟩ <;> rw [hrun] at hlead
  on_goal 2 =>
    simp only [Procedure.finally_, hrun]
    trivial
  -- what the last program raises is raised, whether or not the first one did
  all_goals
    rcases hrun' : last.run host m1 with ⟨(e' | _) | ⟨⟩, m2⟩ <;>
      simp only [Procedure.finally_, passOn, hrun, hrun']
    · obtain ⟨hlt, hkind⟩ := hlast host m1 m2 _ (hm.leads hlead) hrun'
      exact hkind.trans ⟨fun h => ⟨hlead.calls.trans_lt h.1, h.2⟩, fun h => ⟨hlt, h.2⟩⟩
    · trivial
    · obtain ⟨hlt, hkind⟩ := hlast host m1 m2 _ (hm.leads hlead) hrun'
      first
      | exact iff_of_false (hx host m _ m1 hrun) fun h => hkind ⟨hlt, h.2⟩
      | exact fun h => hkind ⟨hlt, h.2⟩

end Settled

end Procedure
