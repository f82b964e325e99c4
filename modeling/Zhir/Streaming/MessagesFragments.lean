import Zhir.Streaming.MessagesEvents

/-!
How a block of a response is cut into the events of a stream, and what the accumulator makes of
the events of one block.
-/

set_option autoImplicit false
set_option relaxedAutoImplicit false

namespace Zhir.Streaming.Messages

open Zhir.Core
open Zhir.Models

def Delta.piece (name : String) : Delta → Option String
  | .text piece => if name = "text" then some piece else none
  | .thinking piece => if name = "thinking" then some piece else none
  | .signature piece => if name = "signature" then some piece else none
  | _ => none

def Delta.input : Delta → Option String
  | .inputJson piece => some piece
  | _ => none

def Delta.citation : Delta → Option Value
  | .citations citation => some citation
  | _ => none

def pieces (name : String) (deltas : List Delta) : List String :=
  deltas.filterMap (Delta.piece name)

def inputs (deltas : List Delta) : List String := deltas.filterMap Delta.input

def citationsOf (deltas : List Delta) : List Value := deltas.filterMap Delta.citation

def extended (opened : Value) (name : String) (pieces : List String) : Option Value :=
  if pieces = [] then opened.field name
  else some (.string (textAt opened name ++ String.join pieces))

/-- The input of a block by its pieces: the one it was opened with, the document they spell, or
none for a tool without arguments. -/
inductive InputOf (json : JsonText) (opened : Value) : List String → Option Value → Prop
  | whole : InputOf json opened [] (opened.field "input")
  | spelled {pieces : List String} {input : Value} (hne : pieces ≠ [])
      (hparse : json.parse (String.join pieces) = .ok input) :
      InputOf json opened pieces (some input)
  | none {pieces : List String} (hne : pieces ≠ []) (hjoin : String.join pieces = "") :
      InputOf json opened pieces (opened.field "input")

/-- A block is the opened one with what the deltas carry. -/
structure Fragments (json : JsonText) (block opened : Value) (deltas : List Delta) : Prop where
  openedCanonical : opened.Canonical
  blockCanonical : block.Canonical
  field : ∀ name, name ≠ "input" → name ≠ "citations" →
    block.field name = extended opened name (pieces name deltas)
  input : InputOf json opened (inputs deltas) (block.field "input")
  citations : block.field "citations" =
    if citationsOf deltas = [] then opened.field "citations"
    else some (.array (((opened.field "citations").bind asArray).getD [] ++ citationsOf deltas))

/-- No citation is streamed, and no input of nothing but empty pieces. -/
def Faithful (deltas : List Delta) : Prop :=
  citationsOf deltas = [] ∧ (inputs deltas = [] ∨ String.join (inputs deltas) ≠ "")

def blockEvents (opened : Value) (deltas : List Delta) : List BlockEvent :=
  .start opened :: deltas.map .delta ++ [.stop]

section

variable {json : JsonText} {block opened : Value} {deltas : List Delta}

private theorem pieces_append (name : String) (before : List Delta) (change : Delta) :
    pieces name (before ++ [change]) = pieces name before ++ (change.piece name).toList := by
  unfold pieces
  rw [List.filterMap_append]
  cases h : change.piece name <;> simp [h]

private theorem extended_append (name : String) (before : List String) (piece : String) :
    extended opened name (before ++ [piece]) = some (.string
      ((((extended opened name before).bind asString).getD "") ++ piece)) := by
  unfold extended
  rw [if_neg (List.append_ne_nil_of_right_ne_nil _ (List.cons_ne_nil _ _)), String.join_append]
  by_cases hnil : before = []
  · rw [if_pos hnil, hnil]
    simp [textAt]
  · rw [if_neg hnil]
    simp [asString, String.append_assoc]

/-- The partial input that is kept until the block is closed. -/
def rawOf (deltas : List Delta) : Option String :=
  if inputs deltas = [] then none else some (String.join (inputs deltas))

private theorem rawOf_append_input (before : List Delta) (piece : String) :
    rawOf (before ++ [.inputJson piece]) = some ((rawOf before).getD "" ++ piece) := by
  have hinputs : inputs (before ++ [.inputJson piece]) = inputs before ++ [piece] := by
    simp [inputs, Delta.input]
  unfold rawOf
  rw [hinputs, if_neg (List.append_ne_nil_of_right_ne_nil _ (List.cons_ne_nil _ _)),
    String.join_append]
  by_cases hnil : inputs before = []
  · simp [hnil]
  · simp [hnil]

private theorem rawOf_append {change : Delta} (before : List Delta) (h : change.input = none) :
    rawOf (before ++ [change]) = rawOf before := by
  have hinputs : inputs (before ++ [change]) = inputs before := by
    simp [inputs, h]
  unfold rawOf
  rw [hinputs]

private theorem append_extended {b : Value} {before : List Delta} {change : Delta}
    {name piece : String}
    (hb : b.Canonical) (hfield : ∀ name, b.field name = extended opened name (pieces name before))
    (hpiece : ∀ other, change.piece other = if other = name then some piece else none) :
    ∃ b', append b name piece = .ok b' ∧ b'.Canonical ∧
      ∀ other, b'.field other = extended opened other (pieces other (before ++ [change])) := by
  obtain ⟨b', hb'⟩ := exists_append hb.indexable name piece
  obtain ⟨-, -, hself, hother⟩ := append_ok hb'
  refine ⟨b', hb', hb.modifyField hb', fun other => ?_⟩
  rw [pieces_append, hpiece]
  by_cases h : other = name
  · subst h
    rw [if_pos rfl, hself, hfield]
    exact (extended_append other _ piece).symm
  · rw [if_neg h, hother other h, hfield]
    simp

private theorem run_deltas (hopened : opened.Canonical) (deltas : List Delta) :
    ∃ b, (deltas.map BlockEvent.delta).foldlM (BlockCell.step json) ⟨some opened, none⟩ =
        .ok ⟨some b, rawOf deltas⟩ ∧ b.Canonical ∧
      ∀ name, b.field name = extended opened name (pieces name deltas) := by
  induction deltas using List.reverseRecOn with
  | nil => exact ⟨opened, rfl, hopened, fun name => rfl⟩
  | append_singleton before change ih =>
    obtain ⟨b, hrun, hb, hfield⟩ := ih
    have hlast : ((before ++ [change]).map BlockEvent.delta).foldlM (BlockCell.step json)
        ⟨some opened, none⟩ = BlockCell.extend ⟨some b, rawOf before⟩ b change := by
      rw [List.map_append, List.map_cons, List.map_nil,
        Zhir.Library.Keyed.foldlM_append_singleton, hrun]
      rfl
    have htext : ∀ (name piece : String), change.input = none →
        (∀ other, change.piece other = if other = name then some piece else none) →
        (BlockCell.extend ⟨some b, rawOf before⟩ b change =
          BlockCell.append ⟨some b, rawOf before⟩ b name piece) →
        ∃ b', BlockCell.extend ⟨some b, rawOf before⟩ b change =
            .ok ⟨some b', rawOf (before ++ [change])⟩ ∧ b'.Canonical ∧
          ∀ other, b'.field other = extended opened other (pieces other (before ++ [change])) := by
      intro name piece hinput hpiece hextend
      obtain ⟨b', hb', hcanonical, hfield'⟩ := append_extended hb hfield hpiece
      refine ⟨b', ?_, hcanonical, hfield'⟩
      rw [hextend, rawOf_append before hinput]
      unfold BlockCell.append
      rw [hb']
      rfl
    rw [hlast]
    cases change with
    | text piece => exact htext "text" piece rfl (fun other => rfl) rfl
    | thinking piece => exact htext "thinking" piece rfl (fun other => rfl) rfl
    | signature piece => exact htext "signature" piece rfl (fun other => rfl) rfl
    | inputJson piece =>
      refine ⟨b, ?_, hb, fun other => ?_⟩
      · rw [rawOf_append_input]
        rfl
      · rw [pieces_append, hfield]
        simp [Delta.piece]
    | citations citation =>
      refine ⟨b, ?_, hb, fun other => ?_⟩
      · rw [rawOf_append before rfl]
        rfl
      · rw [pieces_append, hfield]
        simp [Delta.piece]

private theorem pieces_of_other {name : String} (h : name ∉ ["text", "thinking", "signature"])
    (deltas : List Delta) : pieces name deltas = [] := by
  simp only [List.mem_cons, List.not_mem_nil, or_false, not_or] at h
  refine List.filterMap_eq_nil_iff.mpr fun change _ => ?_
  cases change <;> simp [Delta.piece, h]

private theorem Fragments.citations_ne (h : Fragments json block opened deltas)
    (hne : citationsOf deltas ≠ []) : block.field "citations" ≠ opened.field "citations" := by
  intro heq
  rw [h.citations, if_neg hne] at heq
  generalize hold : ((opened.field "citations").bind asArray).getD [] = old at heq
  rw [← heq] at hold
  change old ++ citationsOf deltas = old at hold
  exact hne (List.append_right_eq_self.mp hold)

/-- What is left of a block: the block itself exactly where the stream was faithful. -/
theorem Fragments.run_block (h : Fragments json block opened deltas)
    (hempty : ∃ message, json.parse "" = .error message) :
    (Faithful deltas → (blockEvents opened deltas).foldlM (BlockCell.step json) {} =
      .ok ⟨some block, none⟩) ∧
    ∀ c, (blockEvents opened deltas).foldlM (BlockCell.step json) {} = .ok c →
      ∃ b, c = ⟨some b, none⟩ ∧ (b = block → Faithful deltas) := by
  obtain ⟨b, hrun, hb, hfield⟩ := @run_deltas json opened h.openedCanonical deltas
  have hinput : b.field "input" = opened.field "input" := by
    rw [hfield, pieces_of_other (by decide)]
    rfl
  have hcitations : b.field "citations" = opened.field "citations" := by
    rw [hfield, pieces_of_other (by decide)]
    rfl
  have hall : (blockEvents opened deltas).foldlM (BlockCell.step json) {} =
      BlockCell.stop json ⟨some b, rawOf deltas⟩ := by
    unfold blockEvents
    rw [List.cons_append, List.foldlM_cons]
    change (deltas.map BlockEvent.delta ++ [BlockEvent.stop]).foldlM (BlockCell.step json)
      ⟨some opened, none⟩ = _
    rw [Zhir.Library.Keyed.foldlM_append_singleton, hrun]
    rfl
  rw [hall]
  unfold rawOf
  by_cases hnil : inputs deltas = []
  · -- nothing was streamed of the input: the block is closed as it stands
    rw [if_pos hnil]
    have hwhole : block.field "input" = opened.field "input" := by
      have hof := h.input
      rw [hnil] at hof
      generalize block.field "input" = input at hof ⊢
      cases hof with
      | whole => rfl
      | spelled hne => exact absurd rfl hne
      | none hne => exact absurd rfl hne
    refine ⟨fun hfaithful => ?_, fun c hc => ?_⟩
    · have heq : b = block := by
        refine hb.ext h.blockCanonical fun name => ?_
        by_cases hname : name = "input"
        · rw [hname, hinput, hwhole]
        · by_cases hname' : name = "citations"
          · rw [hname', hcitations, h.citations, if_pos hfaithful.1]
          · rw [hfield, h.field name hname hname']
      rw [heq]
      rfl
    · cases hc
      refine ⟨b, rfl, fun heq => ⟨?_, .inl hnil⟩⟩
      by_contra hne
      exact h.citations_ne hne (heq ▸ hcitations)
  · rw [if_neg hnil]
    change (_ → BlockCell.close json (String.join (inputs deltas)) b = _) ∧
      ∀ c, BlockCell.close json (String.join (inputs deltas)) b = .ok c → _
    unfold BlockCell.close
    by_cases hjoin : String.join (inputs deltas) = ""
    · -- empty pieces only: nothing that could be read as a document
      obtain ⟨message, hparse⟩ := hempty
      rw [hjoin, hparse]
      refine ⟨fun hfaithful => ?_, fun c hc => by cases hc⟩
      rcases hfaithful.2 with hnil' | hne
      · exact absurd hnil' hnil
      · exact absurd hjoin hne
    · have hspelled : ∃ input, json.parse (String.join (inputs deltas)) = .ok input ∧
          block.field "input" = some input := by
        have hof := h.input
        generalize inputs deltas = ps at hof hnil hjoin ⊢
        generalize block.field "input" = input at hof ⊢
        cases hof with
        | whole => exact absurd rfl hnil
        | spelled hne hparse => exact ⟨_, hparse, rfl⟩
        | none hne hempty' => exact absurd hempty' hjoin
      obtain ⟨input, hparse, hblock⟩ := hspelled
      obtain ⟨b', hassign, -, hfield'⟩ := Value.exists_assign hb.indexable "input" input
      have hclosed : (do
          let block ← b.assign "input" input
          return { value := some block, raw := none } : Checked BlockCell) =
          .ok ⟨some b', none⟩ := by
        rw [hassign]
        rfl
      simp only [hparse, hclosed]
      refine ⟨fun hfaithful => ?_, fun c hc => ?_⟩
      · have heq : b' = block := by
          refine (hb.modifyField hassign).ext h.blockCanonical fun name => ?_
          rw [hfield']
          by_cases hname : name = "input"
          · rw [if_pos hname, hname, hblock]
          · rw [if_neg hname]
            by_cases hname' : name = "citations"
            · rw [hname', hcitations, h.citations, if_pos hfaithful.1]
            · rw [hfield, h.field name hname hname']
        rw [heq]
      · cases hc
        refine ⟨b', rfl, fun heq => ⟨?_, .inr hjoin⟩⟩
        by_contra hne
        refine h.citations_ne hne ?_
        rw [← heq, hfield', if_neg (by decide), hcitations]

end

end Zhir.Streaming.Messages
