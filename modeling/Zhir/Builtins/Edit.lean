import Zhir.Builtins.Write
import Zhir.Library.Replacing

/-!
The tools `write_file` and `edit_file`. An edit is computed from the text that the tool read, and
made on the file whose digest the caller expects.
-/

set_option autoImplicit false
set_option relaxedAutoImplicit false

namespace Zhir.Builtins

open Zhir.Core
open Zhir.Library (Machine Replaced count replacen replaced_replacen count_eq_min count_self)

structure WriteArgs where
  path : String
  content : String
  expectedSha256 : Option String
  deriving DecidableEq, Repr

structure EditArgs where
  path : String
  oldString : String
  newString : String
  expectedSha256 : String
  replaceAll : Bool := false
  deriving DecidableEq, Repr

/-- The reply of `write_content`. -/
structure WriteReply where
  path : String
  operation : String
  previousSha256 : Option String
  sha256 : String
  bytesWritten : Nat
  deriving DecidableEq, Repr

/-- The reply of `edit_content`. -/
structure EditReply where
  path : String
  replacements : Nat
  previousSha256 : String
  sha256 : String
  bytesWritten : Nat
  deriving DecidableEq, Repr

section

variable (host : Host)

def writeContent (a : WriteArgs) : Tool WriteReply where
  prepare _ :=
    let content := asBytes a.content.toList
    .ok (⟨content, a.expectedSha256⟩, fun previous =>
      { path := host.display a.path
        operation := if previous.isSome then "replace" else "create"
        previousSha256 := previous
        sha256 := host.digest content
        bytesWritten := content.length })

/-- How often `edit_content` finds the old string. -/
def EditArgs.matched (a : EditArgs) (text : List Char) : Nat :=
  count a.oldString.toList text.length text

/-- The text that `edit_content` makes, by `replace` or by `replacen`. -/
def EditArgs.edited (a : EditArgs) (text : List Char) : List Char :=
  replacen a.oldString.toList a.newString.toList (if a.replaceAll then text.length else 1) text

def editContent (a : EditArgs) : Tool EditReply where
  prepare file := do
    let bytes ← read host file
    let text ← utf8 host bytes
    require (a.oldString ≠ "") (failure "invalid_edit" "empty match text")
    require (¬ (a.matched text = 0 ∨ 1 < a.matched text ∧ a.replaceAll = false))
      (failure "ambiguous_edit" "expected one match, or replace_all")
    let content := asBytes (a.edited text)
    return (⟨content, some a.expectedSha256⟩, fun _ =>
      { path := host.display a.path
        replacements := a.matched text
        previousSha256 := a.expectedSha256
        sha256 := host.digest content
        bytesWritten := content.length })

end

section Preparing

variable {host : Host} {a : EditArgs} {file : Option Bytes} {r : Replacement}
variable {reply : Option String → EditReply}

theorem EditArgs.replaced {text : List Char} (hmatched : a.matched text ≠ 0)
    (hone : ¬ (1 < a.matched text ∧ a.replaceAll = false)) :
    Replaced a.oldString.toList a.newString.toList (a.matched text) text (a.edited text) := by
  have hlimit : count a.oldString.toList (if a.replaceAll then text.length else 1) text =
      a.matched text := by
    by_cases hall : a.replaceAll = true
    · rw [if_pos hall]
      rfl
    · rw [if_neg hall]
      have hle : a.matched text ≤ 1 := by
        by_contra h
        exact hone ⟨by omega, eq_false_of_ne_true hall⟩
      have hlength : 1 ≤ text.length := by
        by_contra h
        have hempty : text = [] := List.length_eq_zero_iff.mp (by omega)
        rw [hempty] at hmatched
        exact hmatched rfl
      have hmin := count_eq_min a.oldString.toList hlength text
      unfold EditArgs.matched at hmatched hle ⊢
      omega
  rw [← hlimit]
  exact replaced_replacen _ _

private theorem editContent_prepare (h : (editContent host a).prepare file = .ok (r, reply)) :
    ∃ bytes text, file = some bytes ∧ bytes.length ≤ maxBytes ∧ utf8 host bytes = .ok text ∧
      text ≠ [] ∧ r = ⟨asBytes (a.edited text), some a.expectedSha256⟩ ∧
      (∀ p, (reply p).replacements = a.matched text) ∧
      Replaced a.oldString.toList a.newString.toList (a.matched text) text (a.edited text) := by
  obtain ⟨bytes, hread, h⟩ := Result.bind_ok h
  obtain ⟨text, htext, h⟩ := Result.bind_ok h
  obtain ⟨_, -, h⟩ := Result.bind_ok h
  obtain ⟨_, hcount, h⟩ := Result.bind_ok h
  obtain ⟨hfile, hlength⟩ := read_ok.mp hread
  have hcount := require_ok hcount
  have hmatched : a.matched text ≠ 0 := fun h => hcount (.inl h)
  cases h
  refine ⟨bytes, text, hfile, hlength, htext, ?_, rfl, fun _ => rfl,
    EditArgs.replaced hmatched fun h => hcount (.inr h)⟩
  rintro rfl
  exact hmatched rfl

private theorem editContent_prepare_all {bytes : Bytes} {text : List Char} (path expected : String)
    (hlength : bytes.length ≤ maxBytes) (htext : utf8 host bytes = .ok text) (hne : text ≠ []) :
    ∃ reply : Option String → EditReply,
      (editContent host ⟨path, String.ofList text, "", expected, true⟩).prepare (some bytes) =
        .ok (⟨[], some expected⟩, reply) ∧ ∀ p, (reply p).replacements = 1 := by
  generalize ha : (⟨path, String.ofList text, "", expected, true⟩ : EditArgs) = a
  have hold : a.oldString.toList = text := by
    rw [← ha]
    exact String.toList_ofList
  have hall : a.replaceAll = true := by rw [← ha]
  have hmatched : a.matched text = 1 := by
    unfold EditArgs.matched
    rw [hold]
    exact count_self hne
  have hreplaced : Replaced a.oldString.toList a.newString.toList (a.matched text) text
      (a.edited text) :=
    EditArgs.replaced (by omega) (by omega)
  have hedited : a.edited text = [] := by
    have hlength := hreplaced.length
    have hnew : a.newString.toList.length = 0 := by
      rw [← ha]
      rfl
    rw [hmatched, hold, hnew] at hlength
    exact List.length_eq_zero_iff.mp (by omega)
  have hnonempty : a.oldString ≠ "" := by
    intro h
    rw [h] at hold
    exact hne hold.symm
  have hone : ¬ (a.matched text = 0 ∨ 1 < a.matched text ∧ a.replaceAll = false) := by
    rw [hall]
    omega
  refine ⟨fun _ => ⟨host.display a.path, a.matched text, a.expectedSha256, host.digest [], 0⟩, ?_,
    fun _ => hmatched⟩
  have hexpected : a.expectedSha256 = expected := by rw [← ha]
  show (read host (some bytes) >>= _) = _
  rw [read_ok.mpr ⟨rfl, hlength⟩]
  show (utf8 host bytes >>= _) = _
  rw [htext]
  show (require (a.oldString ≠ "") _ >>= _) = _
  rw [show require (a.oldString ≠ "") _ = .ok () from if_pos hnonempty]
  show (require (¬ (a.matched text = 0 ∨ 1 < a.matched text ∧ a.replaceAll = false)) _ >>= _) = _
  rw [show require (¬ (a.matched text = 0 ∨ 1 < a.matched text ∧ a.replaceAll = false)) _ = .ok ()
    from if_pos hone]
  show Except.ok _ = _
  rw [hedited, hexpected]
  rfl

end Preparing

/-- A write succeeds on an absent file or on the content whose digest is expected, and leaves
every other file alone. -/
private theorem write_file_conditional (host : Host) (a : WriteArgs) (file : Option Bytes)
    (actions : List Action) :
    match ((writeContent host a).run host file actions).reply with
    | some reply =>
      ∃ before, before.map host.digest = a.expectedSha256 ∧
        ((writeContent host a).run host file actions).changes =
          [(before, asBytes a.content.toList)] ∧
        reply.previousSha256 = a.expectedSha256 ∧
        reply.sha256 = host.digest (asBytes a.content.toList)
    | none => ((writeContent host a).run host file actions).changes = [] := by
  have h := Tool.run_lawful host (writeContent host a) file actions
  generalize (writeContent host a).run host file actions = s at h ⊢
  unfold Session.Lawful at h
  unfold Session.reply
  cases hprogress : s.progress with
  | waiting =>
    rw [hprogress] at h
    exact h
  | replacing r reply stage =>
    rw [hprogress] at h
    exact h.1
  | finished outcome =>
    rw [hprogress] at h
    cases outcome with
    | error e => exact h
    | ok outcome =>
      obtain ⟨r, reply, before, hprepare, rfl, hconfirm, hchanges⟩ := h
      cases hprepare
      refine ⟨before, ?_, hchanges, rfl, rfl⟩
      rcases Replacement.confirm_ok hconfirm with ⟨hexpected, rfl⟩ | ⟨c, rfl, -, hexpected⟩
      · exact hexpected.symm
      · exact hexpected.symm

section Editing

variable {host : Host} {a : EditArgs} {s : Session EditReply}

/-- An edit has succeeded on a file with the expected digest, whose content it has kept but for
the occurrences it reports replaced, or has left the file alone. -/
def Faithful (host : Host) (a : EditArgs) (s : Session EditReply) : Prop :=
  match s.reply with
  | some reply =>
    ∃ before after, s.changes = [(some before, after)] ∧
      host.digest before = a.expectedSha256 ∧
      Replaced (asBytes a.oldString.toList) (asBytes a.newString.toList) reply.replacements
        before after
  | none => s.changes = []

/-- Where the tool renames, since its last look at the file lets it, the file is the text that the
tool has read. -/
def Fresh (host : Host) (s : Session EditReply) (action : Action) : Prop :=
  ∀ r reply previous, s.progress = .replacing r reply (.written previous) →
    action = .tool none → r.confirm host s.file = .ok () →
      ∀ bytes text, s.seen = some bytes → utf8 host bytes = .ok text →
        s.file = some (asBytes text)

/-- What the tool has changed was the text that the tool has read. -/
def Session.Kept (host : Host) (s : Session EditReply) : Prop :=
  ∀ bytes text, s.seen = some bytes → utf8 host bytes = .ok text →
    ∀ change ∈ s.changes, change.1 = some (asBytes text)

/-- A change of the file is an edit that has succeeded on another content than the one it was
computed from, where they differ. -/
private theorem change_of_mem {before : Option Bytes} {after : Bytes}
    (h : s.Lawful host (editContent host a)) (hchange : (before, after) ∈ s.changes) :
    ∃ reply bytes text c, s.reply = some reply ∧ s.seen = some bytes ∧
      bytes.length ≤ maxBytes ∧ utf8 host bytes = .ok text ∧ text ≠ [] ∧ before = some c ∧
      c.length ≤ maxBytes ∧ host.digest c = a.expectedSha256 ∧ s.changes = [(some c, after)] ∧
      Replaced (asBytes a.oldString.toList) (asBytes a.newString.toList) reply.replacements
        (asBytes text) after := by
  unfold Session.Lawful at h
  unfold Session.reply
  cases hprogress : s.progress with
  | waiting =>
    rw [hprogress] at h
    rw [show s.changes = [] from h] at hchange
    cases hchange
  | replacing r reply stage =>
    rw [hprogress] at h
    rw [h.1] at hchange
    cases hchange
  | finished outcome =>
    rw [hprogress] at h
    cases outcome with
    | error e =>
      rw [show s.changes = [] from h] at hchange
      cases hchange
    | ok outcome =>
      obtain ⟨r, reply, found, hprepare, rfl, hconfirm, hchanges⟩ := h
      obtain ⟨bytes, text, hseen, hlength, htext, hne, rfl, hcount, hreplaced⟩ :=
        editContent_prepare hprepare
      rw [hchanges] at hchange
      cases List.mem_singleton.mp hchange
      rcases Replacement.confirm_ok hconfirm with ⟨hnone, -⟩ | ⟨c, rfl, hsize, hdigest⟩
      · cases hnone
      · refine ⟨_, bytes, text, c, rfl, hseen, hlength, htext, hne, rfl, hsize,
          (Option.some.inj hdigest).symm, hchanges, ?_⟩
        rw [hcount]
        exact hreplaced.flatMap String.utf8EncodeChar

private theorem faithful_of_unchanged {t : Tool EditReply} (h : s.Lawful host t)
    (hchanges : s.changes = []) : Faithful host a s := by
  unfold Session.Lawful at h
  unfold Faithful Session.reply
  cases hprogress : s.progress with
  | waiting => exact hchanges
  | replacing r reply stage => exact hchanges
  | finished outcome =>
    cases outcome with
    | error e => exact hchanges
    | ok reply =>
      rw [hprogress] at h
      obtain ⟨_, _, _, -, -, -, hone⟩ := h
      rw [hchanges] at hone
      cases hone

private theorem faithful_of_kept (h : s.Lawful host (editContent host a)) (hkept : s.Kept host) :
    Faithful host a s := by
  cases hchanges : s.changes with
  | nil => exact faithful_of_unchanged h hchanges
  | cons change rest =>
    obtain ⟨before, after⟩ := change
    have hmem : (before, after) ∈ s.changes := by
      rw [hchanges]
      exact List.mem_cons_self
    obtain ⟨reply, bytes, text, c, hreply, hseen, -, htext, -, rfl, -, hdigest, hone, hreplaced⟩ :=
      change_of_mem h hmem
    have hc : c = asBytes text := Option.some.inj (hkept bytes text hseen htext _ hmem)
    unfold Faithful
    rw [hreply]
    refine ⟨c, after, hone, hdigest, ?_⟩
    rw [hc]
    exact hreplaced

private theorem not_faithful_of_length (n : Nat) (c after : Bytes)
    (hcount : s.reply.map EditReply.replacements = some n)
    (hchanges : s.changes = [(some c, after)])
    (hlength : after.length + n * (asBytes a.oldString.toList).length ≠
      c.length + n * (asBytes a.newString.toList).length) :
    ¬ Faithful host a s := by
  intro h
  obtain ⟨reply, hreply, rfl⟩ := Option.map_eq_some_iff.mp hcount
  unfold Faithful at h
  rw [hreply] at h
  obtain ⟨before, after', hone, -, hreplaced⟩ := h
  rw [hchanges] at hone
  cases hone
  exact hlength hreplaced.length

/-- An edit of a file that nobody else has changed is faithful exactly if the file does not start
with a byte-order mark. -/
private theorem faithful_iff_unmarked {c after : Bytes} (h : s.Lawful host (editContent host a))
    (hseen : s.seen = some c) (hchange : (some c, after) ∈ s.changes) :
    Faithful host a s ↔ ¬ Marked c := by
  obtain ⟨reply, bytes, text, c', hreply, hbytes, -, htext, -, hc, -, hdigest, hone, hreplaced⟩ :=
    change_of_mem h hchange
  cases hc
  have hsame : c = bytes := Option.some.inj (hseen.symm.trans hbytes)
  subst hsame
  rcases eq_asBytes_of_utf8 htext with ⟨hmarked, hlost⟩ | ⟨hunmarked, hkept⟩
  · refine iff_of_false ?_ fun h => h hmarked
    apply not_faithful_of_length _ _ _ (congrArg _ hreply) hone
    have hmark : (asBytes [byteOrderMark]).length = 3 := by decide +kernel
    have htotal := congrArg List.length hlost
    have hlength := hreplaced.length
    rw [List.length_append] at htotal
    omega
  · refine iff_of_true ?_ hunmarked
    unfold Faithful
    rw [hreply]
    refine ⟨c, after, hone, hdigest, ?_⟩
    rw [hkept]
    exact hreplaced

theorem Session.Kept.step {t : Tool EditReply} {action : Action} {s' : Session EditReply}
    (h : s.Kept host) (hlawful : s.Lawful host t) (hfresh : Fresh host s action)
    (hstep : Stepped host t s action s') : s'.Kept host := by
  cases hstep with
  | other | idle | next | failed => exact h
  | refused e hprogress | called hprogress =>
    unfold Session.Lawful at hlawful
    rw [hprogress] at hlawful
    intro bytes text _ _ change hchange
    rw [show s.changes = [] from hlawful] at hchange
    cases hchange
  | renamed hprogress hconfirm =>
    intro bytes text hseen htext change hchange
    rcases List.mem_append.mp hchange with hmem | hmem
    · exact h bytes text hseen htext change hmem
    · cases List.mem_singleton.mp hmem
      exact hfresh _ _ _ hprogress rfl hconfirm bytes text hseen htext

theorem run_kept {file : Option Bytes} {actions : List Action}
    (hfresh : ((editContent host a).machine host).Allows (Fresh host) { file := file } actions) :
    ((editContent host a).run host file actions).Kept host := by
  have hstart : Session.Lawful host (editContent host a) { file := file } ∧
      Session.Kept host ({ file := file } : Session EditReply) := by
    refine ⟨rfl, ?_⟩
    intro _ _ hseen
    cases hseen
  refine (Machine.after_of_allows (I := fun s => Session.Lawful host (editContent host a) s ∧
    s.Kept host) ?_ hstart hfresh).2
  rintro s action hallowed ⟨hlawful, hkept⟩
  have hstep := (editContent host a).stepped host s action
  exact ⟨hlawful.step hstep, hkept.step hlawful hallowed hstep⟩

end Editing

section Edits

variable {host : Host} {bytes c : Bytes}

/-- What the file must be for every edit that was computed from some bytes to be faithful. -/
def Covers (host : Host) (bytes c : Bytes) : Prop :=
  bytes.length ≤ maxBytes → c.length ≤ maxBytes →
    ∀ text, utf8 host bytes = .ok text → text ≠ [] → c = asBytes text

private theorem faithful_of_covers {a : EditArgs} {s : Session EditReply} {after : Bytes}
    (h : Covers host bytes c) (hlawful : s.Lawful host (editContent host a))
    (hseen : s.seen = some bytes) (hchange : (some c, after) ∈ s.changes) : Faithful host a s := by
  obtain ⟨_, bytes', text, c', -, hbytes, hlength, htext, hne, hc, hsize, -, hone, -⟩ :=
    change_of_mem hlawful hchange
  cases hc
  have hsame : bytes = bytes' := Option.some.inj (hseen.symm.trans hbytes)
  subst hsame
  apply faithful_of_kept hlawful
  intro bytes'' text' hseen' htext' change hmem
  have hsame : bytes = bytes'' := Option.some.inj (hseen.symm.trans hseen')
  subst hsame
  rw [hone] at hmem
  cases List.mem_singleton.mp hmem
  rw [h hlength hsize text htext hne, Except.ok.inj (htext.symm.trans htext')]

private theorem covers_of_faithful
    (h : ∀ (a : EditArgs) file actions after,
      ((editContent host a).run host file actions).seen = some bytes →
      (some c, after) ∈ ((editContent host a).run host file actions).changes →
      Faithful host a ((editContent host a).run host file actions)) :
    Covers host bytes c := by
  intro hlength hsize text htext hne
  obtain ⟨reply, hprepare, hreply⟩ := editContent_prepare_all "" (host.digest c)
    hlength htext hne
  have hrun := Tool.run_over hprepare (Nat.zero_le _) hsize rfl
  have hfaithful := h ⟨"", String.ofList text, "", host.digest c, true⟩ _ _ [] (by rw [hrun])
    (by rw [hrun]; exact List.mem_cons_self)
  rw [hrun] at hfaithful
  obtain ⟨before, after, hone, -, hreplaced⟩ := hfaithful
  cases hone
  rw [hreply] at hreplaced
  have hc := hreplaced.eq_of_emptied rfl rfl
  rw [hc, String.toList_ofList]

/-- An edit succeeds on the content whose digest is expected with the reported number of
occurrences replaced, or leaves the file alone, in every run that renames over the text it has
read. Edits computed from some bytes are faithful over some content exactly if the content is the
text of those bytes, and over the same bytes exactly if no byte-order mark starts them. -/
theorem edit_file_faithful_iff (host : Host) :
    (∀ (a : EditArgs) file actions,
      ((editContent host a).machine host).Allows (Fresh host) { file := file } actions →
      Faithful host a ((editContent host a).run host file actions)) ∧
    (∀ bytes c, (∀ (a : EditArgs) file actions after,
        ((editContent host a).run host file actions).seen = some bytes →
        (some c, after) ∈ ((editContent host a).run host file actions).changes →
        Faithful host a ((editContent host a).run host file actions)) ↔ Covers host bytes c) ∧
    (∀ (a : EditArgs) file actions c after,
      ((editContent host a).run host file actions).seen = some c →
      (some c, after) ∈ ((editContent host a).run host file actions).changes →
      (Faithful host a ((editContent host a).run host file actions) ↔ ¬ Marked c)) ∧
    ∀ (a : EditArgs) s fault,
      ((editContent host a).step host s (.tool fault)).changes = s.changes →
      ((editContent host a).step host s (.tool fault)).file = s.file := by
  refine ⟨?_, ?_, ?_, ?_⟩
  · intro a file actions hfresh
    exact faithful_of_kept (Tool.run_lawful host _ file actions) (run_kept hfresh)
  · intro bytes c
    constructor
    · exact covers_of_faithful
    · intro h a file actions after hseen hchange
      exact faithful_of_covers h (Tool.run_lawful host _ file actions) hseen hchange
  · intro a file actions c after hseen hchange
    exact faithful_iff_unmarked (Tool.run_lawful host _ file actions) hseen hchange
  · intro a s fault
    exact Tool.step_file fault

end Edits

def sampleHost : Host where
  digest bytes :=
    if bytes = [0xEF, 0xBB, 0xBF, 97] then
      "1951c7860e968e742658b3af34e60741eb4aaf2a8d2ecc3993727016b12e81e8"
    else if bytes = [97] then
      "ca978112ca1bbdcafac231b39a23dc4da786eff8147c4e72b9807785afee48bb"
    else if bytes = [97, 98] then
      "fb8e20fc2e4c3f248c60c39bd652f3c1347298bb977b8b4d5903b85055620603"
    else if bytes = [98] then
      "3e23e8160039594a33894f6564e1b1348bbd7a0088d42c4acb73eeaed59c009d"
    else if bytes = [98, 98] then
      "3b64db95cb55c763391c707108489ae18b4112d783300de38e033b4c98c3deaf"
    else ""
  display path := path
  utf8Error _ := "invalid utf-8 sequence of 1 bytes from index 0"
  notFound := "No such file or directory (os error 2)"
  alreadyExists := "File exists (os error 17)"

/-- An edit of `a` in a file that starts with a byte-order mark. -/
def markedEdit : EditArgs where
  path := "notes"
  oldString := "a"
  newString := "b"
  expectedSha256 := "1951c7860e968e742658b3af34e60741eb4aaf2a8d2ecc3993727016b12e81e8"

/-- An edit of the file `a`. -/
def staleEdit : EditArgs where
  path := "notes"
  oldString := "a"
  newString := "b"
  expectedSha256 := "ca978112ca1bbdcafac231b39a23dc4da786eff8147c4e72b9807785afee48bb"

theorem edit_faithful :
    Faithful sampleHost staleEdit ((editContent sampleHost staleEdit).run sampleHost (some [97])
        [.tool none, .tool none, .tool none, .tool none, .tool none]) ∧
      ((editContent sampleHost staleEdit).run sampleHost (some [97])
        [.tool none, .tool none, .tool none, .tool none, .tool none]).file = some [98] := by
  constructor
  · apply ((edit_file_faithful_iff sampleHost).2.2.1 staleEdit (some [97])
      [.tool none, .tool none, .tool none, .tool none, .tool none] [97] [98] (by decide +kernel)
      (by decide +kernel)).mpr
    rintro ⟨text, h⟩
    rw [show fromUtf8 [97] = some ['a'] by decide +kernel] at h
    cases h
  · decide +kernel

theorem edit_unfaithful :
    ¬ Faithful sampleHost markedEdit ((editContent sampleHost markedEdit).run sampleHost
        (some [0xEF, 0xBB, 0xBF, 97])
        [.tool none, .tool none, .tool none, .tool none, .tool none]) ∧
    ¬ Faithful sampleHost staleEdit ((editContent sampleHost staleEdit).run sampleHost
        (some [97, 98]) [.tool none, .other (some [97]), .tool none, .tool none, .tool none,
          .tool none]) := by
  constructor
  · exact not_faithful_of_length 1 [0xEF, 0xBB, 0xBF, 97] [98] (by decide +kernel)
      (by decide +kernel) (by decide +kernel)
  · exact not_faithful_of_length 1 [97] [98, 98] (by decide +kernel) (by decide +kernel)
      (by decide +kernel)

end Zhir.Builtins
