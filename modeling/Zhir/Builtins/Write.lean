import Zhir.Builtins.Workspace
import Zhir.Library.Machine

/-!
`replace_file` step by step, and the tools around it. Between any two steps of a tool other
writers may change the file; only the last look at the file and the rename after it are one step.
-/

set_option autoImplicit false
set_option relaxedAutoImplicit false

namespace Zhir.Builtins

open Zhir.Core
open Zhir.Library (Machine)

/-- What a call of `replace_file` is given besides the path. -/
structure Replacement where
  content : Bytes
  expected : Option String
  deriving DecidableEq, Repr

/-- How far a call of `replace_file` has come. -/
inductive Stage
  | called
  /-- `path.exists()` has answered. -/
  | found (there : Bool)
  /-- The digest of the file has been compared. -/
  | compared (previous : Option String)
  /-- The temporary file holds the content. -/
  | written (previous : Option String)
  deriving DecidableEq, Repr

/-- What a step of `replace_file` leads to. -/
inductive Outcome
  | next (stage : Stage)
  | failed (error : Error)
  /-- The content has become the file, and the call returns. -/
  | renamed (previous : Option String)
  deriving DecidableEq, Repr

/-- A step that does not get to its result where a fault stops it. -/
def attempt {α : Type} (fault : Option Fault) (result : Result α) : Result α :=
  match fault with
  | some fault => .error fault.error
  | none => result

def Outcome.of {α : Type} (outcome : α → Outcome) : Result α → Outcome
  | .ok a => outcome a
  | .error e => .failed e

/-- The digest that `replace_file` compares first, of a file that is there. -/
def previousDigest (host : Host) (fault : Option Fault) (file : Option Bytes) (there : Bool) :
    Result (Option String) :=
  if there then (attempt fault (read host file)).map fun bytes => some (host.digest bytes)
  else .ok none

namespace Replacement

variable (host : Host) (r : Replacement)

/-- The first comparison of `replace_file`. -/
def compare (previous : Option String) : Result (Option String) :=
  if previous = r.expected then .ok previous
  else .error (failure "file_changed" "file digest differs from expected value")

def confirm (file : Option Bytes) : Result Unit :=
  match r.expected with
  -- `persist_noclobber`
  | none => if file = none then .ok () else .error (failure "filesystem" host.alreadyExists)
  | some expected => do
    let latest ← read host file
    if host.digest latest = expected then .ok ()
    else .error (failure "file_changed" "file changed during write")

/-- `replace_file`. -/
def step (fault : Option Fault) (file : Option Bytes) : Stage → Outcome
  | .called =>
    if maxBytes < r.content.length then
      .failed (failure "file_too_large" "new content exceeds 4 MiB")
    -- `path.exists()` takes a file it cannot look at for absent
    else .next (.found (fault.isNone && file.isSome))
  | .found there =>
    .of (fun previous => .next (.compared previous))
      (previousDigest host fault file there >>= r.compare)
  | .compared previous => .of (fun _ => .next (.written previous)) (attempt fault (.ok ()))
  | .written previous => .of (fun _ => .renamed previous) (attempt fault (r.confirm host file))

end Replacement

/-- What a tool does before `replace_file`, which may depend on the file, and the reply it makes
of what `replace_file` returns. -/
structure Tool (ρ : Type) where
  prepare : Option Bytes → Result (Replacement × (Option String → ρ))

inductive Progress (ρ : Type)
  | waiting
  | replacing (r : Replacement) (reply : Option String → ρ) (stage : Stage)
  | finished (outcome : Result ρ)

/-- A file and one call of a tool on it. `seen` is the file when the tool first looked at it,
`changes` lists what the tool made of the file, with what it was before. -/
structure Session (ρ : Type) where
  file : Option Bytes
  progress : Progress ρ := .waiting
  seen : Option Bytes := none
  changes : List (Option Bytes × Bytes) := []

def Session.reply {ρ : Type} (s : Session ρ) : Option ρ :=
  match s.progress with
  | .finished (.ok outcome) => some outcome
  | _ => none

inductive Action
  /-- Another writer changes or removes the file. -/
  | other (file : Option Bytes)
  | tool (fault : Option Fault)
  deriving DecidableEq, Repr

namespace Tool

variable {ρ : Type} (host : Host) (t : Tool ρ)

/-- The tool goes on with `replace_file`. -/
def proceed (s : Session ρ) (r : Replacement) (reply : Option String → ρ) : Outcome → Session ρ
  | .next stage => { s with progress := .replacing r reply stage }
  | .failed e => { s with progress := .finished (.error e) }
  | .renamed previous =>
    { s with
      file := some r.content
      progress := .finished (.ok (reply previous))
      changes := s.changes ++ [(s.file, r.content)] }

def begin (s : Session ρ) : Result (Replacement × (Option String → ρ)) → Session ρ
  | .ok (r, reply) => { s with progress := .replacing r reply .called, seen := s.file }
  | .error e => { s with progress := .finished (.error e), seen := s.file }

def step (s : Session ρ) : Action → Session ρ
  | .other file => { s with file := file }
  | .tool fault =>
    match s.progress with
    | .waiting => begin s (attempt fault (t.prepare s.file))
    | .replacing r reply stage => proceed s r reply (r.step host fault s.file stage)
    | .finished _ => s

def machine : Machine (Session ρ) Action Unit where
  step s a := (t.step host s a, ())

def run (file : Option Bytes) (actions : List Action) : Session ρ :=
  (t.machine host).after { file := file } actions

end Tool

section Steps

variable {ρ : Type} {host : Host} {t : Tool ρ} {r : Replacement} {s : Session ρ}
variable {fault : Option Fault} {file : Option Bytes} {stage : Stage} {previous : Option String}

private theorem Outcome.of_eq_renamed {α : Type} {outcome : α → Outcome} {result : Result α}
    (h : Outcome.of outcome result = .renamed previous) :
    ∃ a, result = .ok a ∧ outcome a = .renamed previous := by
  cases result with
  | ok a => exact ⟨a, rfl, h⟩
  | error e => cases h

private theorem Outcome.of_eq_next {α : Type} {outcome : α → Outcome} {result : Result α}
    (h : Outcome.of outcome result = .next stage) :
    ∃ a, result = .ok a ∧ outcome a = .next stage := by
  cases result with
  | ok a => exact ⟨a, rfl, h⟩
  | error e => cases h

private theorem attempt_ok {α : Type} {result : Result α} {a : α}
    (h : attempt fault result = .ok a) :
    result = .ok a := by
  cases fault with
  | none => exact h
  | some fault => cases h

private theorem Replacement.step_renamed (h : r.step host fault file stage = .renamed previous) :
    stage = .written previous ∧ fault = none ∧ r.confirm host file = .ok () := by
  cases stage with
  | called =>
    simp only [Replacement.step] at h
    by_cases hlarge : maxBytes < r.content.length
    · rw [if_pos hlarge] at h
      cases h
    · rw [if_neg hlarge] at h
      cases h
  | found there =>
    obtain ⟨_, _, hout⟩ := Outcome.of_eq_renamed h
    cases hout
  | compared p =>
    obtain ⟨_, _, hout⟩ := Outcome.of_eq_renamed h
    cases hout
  | written p =>
    obtain ⟨_, hconfirm, hout⟩ := Outcome.of_eq_renamed h
    cases hout
    cases fault with
    | none => exact ⟨rfl, rfl, hconfirm⟩
    | some fault => cases hconfirm

/-- A stage after the comparison holds the digest that is expected. -/
def Stage.Agrees (r : Replacement) : Stage → Prop
  | .called | .found _ => True
  | .compared previous | .written previous => previous = r.expected

private theorem Replacement.step_agrees (hstage : stage.Agrees r) {stage' : Stage}
    (h : r.step host fault file stage = .next stage') : stage'.Agrees r := by
  cases stage with
  | called =>
    simp only [Replacement.step] at h
    by_cases hlarge : maxBytes < r.content.length
    · rw [if_pos hlarge] at h
      cases h
    · rw [if_neg hlarge] at h
      cases h
      trivial
  | found there =>
    obtain ⟨p, hresult, hout⟩ := Outcome.of_eq_next h
    cases hout
    obtain ⟨q, -, hcompare⟩ := Result.bind_ok hresult
    unfold Replacement.compare at hcompare
    by_cases hsame : q = r.expected
    · rw [if_pos hsame] at hcompare
      cases hcompare
      exact hsame
    · rw [if_neg hsame] at hcompare
      cases hcompare
  | compared p =>
    obtain ⟨_, -, hout⟩ := Outcome.of_eq_next h
    cases hout
    exact hstage
  | written p =>
    obtain ⟨_, -, hout⟩ := Outcome.of_eq_next h
    cases hout

theorem Replacement.confirm_ok (h : r.confirm host file = .ok ()) :
    (r.expected = none ∧ file = none) ∨
      ∃ bytes, file = some bytes ∧ bytes.length ≤ maxBytes ∧
        r.expected = some (host.digest bytes) := by
  unfold Replacement.confirm at h
  cases hexpected : r.expected with
  | none =>
    rw [hexpected] at h
    cases file with
    | none => exact .inl ⟨rfl, rfl⟩
    | some bytes => cases h
  | some expected =>
    rw [hexpected] at h
    obtain ⟨latest, hread, hcheck⟩ := Result.bind_ok h
    obtain ⟨hfile, hlength⟩ := read_ok.mp hread
    refine .inr ⟨latest, hfile, hlength, ?_⟩
    by_cases hsame : host.digest latest = expected
    · rw [hsame]
    · rw [if_neg hsame] at hcheck
      cases hcheck

inductive Stepped (host : Host) (t : Tool ρ) (s : Session ρ) : Action → Session ρ → Prop
  | other (file : Option Bytes) : Stepped host t s (.other file) { s with file := file }
  | idle {fault : Option Fault} {outcome : Result ρ} (hprogress : s.progress = .finished outcome) :
      Stepped host t s (.tool fault) s
  | refused {fault : Option Fault} (e : Error) (hprogress : s.progress = .waiting) :
      Stepped host t s (.tool fault) { s with progress := .finished (.error e), seen := s.file }
  | called {fault : Option Fault} {r : Replacement} {reply : Option String → ρ}
      (hprogress : s.progress = .waiting) (hprepare : t.prepare s.file = .ok (r, reply)) :
      Stepped host t s (.tool fault)
        { s with progress := .replacing r reply .called, seen := s.file }
  | next {fault : Option Fault} {r : Replacement} {reply : Option String → ρ}
      {stage stage' : Stage} (hprogress : s.progress = .replacing r reply stage)
      (hagrees : stage.Agrees r → stage'.Agrees r) :
      Stepped host t s (.tool fault) { s with progress := .replacing r reply stage' }
  | failed {fault : Option Fault} {r : Replacement} {reply : Option String → ρ} {stage : Stage}
      (e : Error) (hprogress : s.progress = .replacing r reply stage) :
      Stepped host t s (.tool fault) { s with progress := .finished (.error e) }
  | renamed {r : Replacement} {reply : Option String → ρ} {previous : Option String}
      (hprogress : s.progress = .replacing r reply (.written previous))
      (hconfirm : r.confirm host s.file = .ok ()) :
      Stepped host t s (.tool none)
        { s with
          file := some r.content
          progress := .finished (.ok (reply previous))
          changes := s.changes ++ [(s.file, r.content)] }

theorem Tool.stepped (host : Host) (t : Tool ρ) (s : Session ρ) (a : Action) :
    Stepped host t s a (t.step host s a) := by
  cases a with
  | other file => exact .other file
  | tool fault =>
    cases hprogress : s.progress with
    | waiting =>
      have hstep : t.step host s (.tool fault) = begin s (attempt fault (t.prepare s.file)) := by
        simp only [Tool.step, hprogress]
      rw [hstep]
      cases hprepare : attempt fault (t.prepare s.file) with
      | error e => exact .refused e hprogress
      | ok prepared =>
        obtain ⟨r, reply⟩ := prepared
        exact .called hprogress (attempt_ok hprepare)
    | replacing r reply stage =>
      have hstep : t.step host s (.tool fault) =
          proceed s r reply (r.step host fault s.file stage) := by
        simp only [Tool.step, hprogress]
      rw [hstep]
      cases hout : r.step host fault s.file stage with
      | next stage' => exact .next hprogress fun hagrees => Replacement.step_agrees hagrees hout
      | failed e => exact .failed e hprogress
      | renamed previous =>
        obtain ⟨rfl, rfl, hconfirm⟩ := Replacement.step_renamed hout
        exact .renamed hprogress hconfirm
    | finished outcome =>
      have hstep : t.step host s (.tool fault) = s := by
        simp only [Tool.step, hprogress]
      rw [hstep]
      exact .idle hprogress

end Steps

section Runs

variable {ρ : Type} {host : Host} {t : Tool ρ} {s s' : Session ρ} {a : Action}

/-- The tool has changed the file where it has succeeded, once, and nowhere else. -/
def Session.Lawful (host : Host) (t : Tool ρ) (s : Session ρ) : Prop :=
  match s.progress with
  | .waiting => s.changes = []
  | .replacing r reply stage =>
    s.changes = [] ∧ t.prepare s.seen = .ok (r, reply) ∧ stage.Agrees r
  | .finished (.error _) => s.changes = []
  | .finished (.ok outcome) =>
    ∃ r reply before, t.prepare s.seen = .ok (r, reply) ∧ outcome = reply r.expected ∧
      r.confirm host before = .ok () ∧ s.changes = [(before, r.content)]

theorem Session.Lawful.step (h : s.Lawful host t) (hstep : Stepped host t s a s') :
    s'.Lawful host t := by
  unfold Session.Lawful at h
  cases hstep with
  | other file => exact h
  | idle hprogress => exact h
  | refused e hprogress =>
    rw [hprogress] at h
    exact h
  | called hprogress hprepare =>
    rw [hprogress] at h
    exact ⟨h, hprepare, trivial⟩
  | next hprogress hagrees =>
    rw [hprogress] at h
    obtain ⟨hchanges, hprepare, hstage⟩ := h
    exact ⟨hchanges, hprepare, hagrees hstage⟩
  | failed e hprogress =>
    rw [hprogress] at h
    exact h.1
  | @renamed r reply previous hprogress hconfirm =>
    rw [hprogress] at h
    obtain ⟨hchanges, hprepare, hprevious⟩ := h
    refine ⟨r, reply, s.file, hprepare, ?_, hconfirm, ?_⟩
    · rw [show previous = r.expected from hprevious]
    · show s.changes ++ [(s.file, r.content)] = _
      rw [hchanges, List.nil_append]

theorem Tool.run_lawful (host : Host) (t : Tool ρ) (file : Option Bytes) (actions : List Action) :
    (t.run host file actions).Lawful host t := by
  apply Machine.after_induction (m := t.machine host) (I := Session.Lawful host t)
  · intro s a h
    exact h.step (t.stepped host s a)
  · show ([] : List (Option Bytes × Bytes)) = []
    rfl

/-- A call that has looked at one content succeeds on another one with the digest it expects. -/
theorem Tool.run_over {a c : Bytes} {r : Replacement} {reply : Option String → ρ}
    (hprepare : t.prepare (some a) = .ok (r, reply)) (hcontent : r.content.length ≤ maxBytes)
    (hc : c.length ≤ maxBytes) (hexpected : r.expected = some (host.digest c)) :
    t.run host (some a) [.tool none, .other (some c), .tool none, .tool none, .tool none,
        .tool none] =
      { file := some r.content
        progress := .finished (.ok (reply r.expected))
        seen := some a
        changes := [(some c, r.content)] } := by
  have hread : read host (some c) = .ok c := read_ok.mpr ⟨rfl, hc⟩
  have hcalled : r.step host none (some c) .called = .next (.found true) :=
    if_neg (by omega)
  have hfound : r.step host none (some c) (.found true) = .next (.compared r.expected) := by
    have hprevious : previousDigest host none (some c) true = .ok (some (host.digest c)) := by
      unfold previousDigest attempt
      rw [if_pos rfl]
      simp only [hread]
      rfl
    have hcompare : r.compare (some (host.digest c)) = .ok r.expected := by
      rw [← hexpected]
      exact if_pos rfl
    show Outcome.of _ (previousDigest host none (some c) true >>= r.compare) = _
    rw [hprevious]
    show Outcome.of _ (r.compare (some (host.digest c))) = _
    rw [hcompare]
    rfl
  have hcompared : r.step host none (some c) (.compared r.expected) =
      .next (.written r.expected) := rfl
  have hwritten : r.step host none (some c) (.written r.expected) = .renamed r.expected := by
    have hconfirm : r.confirm host (some c) = .ok () := by
      unfold Replacement.confirm
      rw [hexpected]
      show (read host (some c) >>= _) = _
      rw [hread]
      exact if_pos rfl
    show Outcome.of _ (r.confirm host (some c)) = _
    rw [hconfirm]
    rfl
  have hbegin : attempt none (t.prepare (some a)) = .ok (r, reply) := hprepare
  simp only [Tool.run, Machine.after, Tool.machine, Tool.step, Tool.begin, Tool.proceed, hbegin,
    hcalled, hfound, hcompared, hwritten, List.nil_append]

/-- The file is changed by other writers and by what the tool's changes list, and by nothing
else. -/
theorem Tool.step_file (fault : Option Fault)
    (h : (t.step host s (.tool fault)).changes = s.changes) :
    (t.step host s (.tool fault)).file = s.file := by
  have hstep := t.stepped host s (.tool fault)
  generalize t.step host s (.tool fault) = s' at h hstep
  cases hstep with
  | idle | refused | called | next | failed => rfl
  | renamed =>
    have hlength := congrArg List.length h
    simp at hlength

end Runs

end Zhir.Builtins
