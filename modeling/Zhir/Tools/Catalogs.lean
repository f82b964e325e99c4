import Mathlib.Data.List.Sort
import Mathlib.Data.String.Basic
import Zhir.Kernel.Session

/-!
Tool registries, catalogs that are composed of others, and what the kernel selects of them.
-/

set_option autoImplicit false
set_option relaxedAutoImplicit false

namespace Zhir.Tools

open Zhir.Core
open Zhir.Kernel (checkSpecs selectCatalog)

/-- What the schema library does with the schemas of a specification. -/
structure Schemas (ν : Type) where
  input : RuntimeToolSpec → Result ν
  output : RuntimeToolSpec → Option (Result ν)
  validate : ν → Value → Result Unit

/-- A registered tool with its compiled schemas; only structured tools have one for the input. -/
structure Entry (τ ν : Type) where
  tool : τ
  spec : RuntimeToolSpec
  input : Option ν
  output : Option ν
  named : spec.name ≠ ""
  compiled : input.isSome = !spec.freeform

variable {τ ν β : Type}

def byName (specs : List RuntimeToolSpec) : List RuntimeToolSpec :=
  specs.insertionSort fun a b => a.name ≤ b.name

structure RuntimeToolRegistry (τ ν : Type) where
  entries : List (Entry τ ν)
  distinct : (entries.map fun e => e.spec.name).Nodup

def duplicate (name : String) (sources : List String) : Error :=
  .arguments ("duplicate runtime tool " ++ name ++ " in [" ++
    ", ".intercalate (sources.map fun s => "\"" ++ s ++ "\"") ++ "]")

def notFound (name : String) : Error := .arguments ("runtime tool not found: " ++ name)

namespace RuntimeToolRegistry

def empty : RuntimeToolRegistry τ ν := ⟨[], List.nodup_nil⟩

/-- `register` up to the lock: the checks on one tool. -/
def entry (s : Schemas ν) (specOf : τ → RuntimeToolSpec) (tool : τ) : Result (Entry τ ν) :=
  let spec := specOf tool
  if hname : spec.name = "" then .error (.arguments "empty runtime tool name")
  else do
    let output : Result (Option ν) := match s.output spec with
      | none => .ok none
      | some compiled => compiled.map some
    match hfree : spec.freeform with
    | true => return ⟨tool, spec, none, ← output, hname, by rw [hfree]; rfl⟩
    | false =>
      let validator ← s.input spec
      return ⟨tool, spec, some validator, ← output, hname, by rw [hfree]; rfl⟩

private theorem distinct_snoc (r : RuntimeToolRegistry τ ν) {e : Entry τ ν}
    (h : e.spec.name ∉ r.entries.map fun e => e.spec.name) :
    ((r.entries ++ [e]).map fun e => e.spec.name).Nodup := by
  rw [List.map_append, List.nodup_append]
  refine ⟨r.distinct, List.nodup_singleton _, ?_⟩
  rintro name hname other hother rfl
  rw [List.map_singleton, List.mem_singleton] at hother
  subst hother
  exact h hname

def add (e : Entry τ ν) (r : RuntimeToolRegistry τ ν) : Result (RuntimeToolRegistry τ ν) :=
  if h : e.spec.name ∈ r.entries.map fun e => e.spec.name then
    .error (duplicate e.spec.name ["registry"])
  else .ok ⟨r.entries ++ [e], r.distinct_snoc h⟩

def register (s : Schemas ν) (specOf : τ → RuntimeToolSpec) (r : RuntimeToolRegistry τ ν)
    (tool : τ) : Result (RuntimeToolRegistry τ ν) := do
  let e ← entry s specOf tool
  r.add e

def fromTools (s : Schemas ν) (specOf : τ → RuntimeToolSpec) (tools : List τ) :
    Result (RuntimeToolRegistry τ ν) := tools.foldlM (register s specOf) empty

end RuntimeToolRegistry

/-- A snapshot of a catalog; `β` is what calls are bound to. -/
structure RuntimeToolCatalog (β : Type) where
  specs : List RuntimeToolSpec
  bind : RuntimeToolCall → Result β

structure Binding (τ ν : Type) where
  entry : Entry τ ν
  call : RuntimeToolCall

def Binding.spec (b : Binding τ ν) : RuntimeToolSpec := b.entry.spec

/-- The input is of the kind that the tool takes, and fits its schema. -/
def Entry.bind (s : Schemas ν) (e : Entry τ ν) (call : RuntimeToolCall) :
    Result (Binding τ ν) :=
  match e.input, call.input with
  | some validator, .structured value => do
    s.validate validator value
    return ⟨e, call⟩
  | none, .freeform _ => .ok ⟨e, call⟩
  | _, _ => .error (.arguments "tool input kind mismatch")

namespace RuntimeToolRegistry

def bind (s : Schemas ν) (r : RuntimeToolRegistry τ ν) (call : RuntimeToolCall) :
    Result (Binding τ ν) := do
  call.validate
  match r.entries.find? fun e => e.spec.name = call.name with
  | none => throw (notFound call.name)
  | some e => e.bind s call

def catalog (s : Schemas ν) (r : RuntimeToolRegistry τ ν) : RuntimeToolCatalog (Binding τ ν) where
  specs := byName (r.entries.map Entry.spec)
  bind := r.bind s

/-- `cancelled` is what the check reads. -/
def openCatalog (s : Schemas ν) (cancelled : Bool) (r : RuntimeToolRegistry τ ν) :
    Result (RuntimeToolCatalog (Binding τ ν)) := do
  checkCancelled cancelled
  return r.catalog s

end RuntimeToolRegistry

/-- A specification with the index of the source it came from. -/
structure Sourced where
  source : Nat
  spec : RuntimeToolSpec

/-- What a source opens, and what the checks before and after it read. -/
structure Visit (β : Type) where
  before : Bool
  opened : Result (RuntimeToolCatalog β)
  after : Bool

/-- The snapshots of a composite catalog and what they offer, by name. -/
structure Composite (β : Type) where
  snapshots : List (RuntimeToolCatalog β)
  entries : List Sourced

namespace Composite

def addSpecs (index : Nat) : List RuntimeToolSpec → List Sourced → Result (List Sourced)
  | [], entries => .ok entries
  | spec :: rest, entries =>
    if spec.name = "" then .error (.arguments "empty runtime tool name")
    else match entries.find? fun e => e.spec.name = spec.name with
      | some old => .error (duplicate spec.name [toString old.source, toString index])
      | none => addSpecs index rest (entries ++ [⟨index, spec⟩])

/-- One source of `open_catalog` after the other. -/
def addSource (c : Composite β) (visit : Visit β) : Result (Composite β) := do
  checkCancelled visit.before
  let snapshot ← visit.opened
  checkCancelled visit.after
  let entries ← addSpecs c.snapshots.length snapshot.specs c.entries
  return ⟨c.snapshots ++ [snapshot], entries⟩

/-- `CompositeRuntimeTools::open_catalog` over what its sources open. -/
def openCatalog (visits : List (Visit β)) : Result (Composite β) :=
  visits.foldlM addSource ⟨[], []⟩

def bind (specOf : β → RuntimeToolSpec) (c : Composite β) (call : RuntimeToolCall) :
    Result β := do
  call.validate
  match c.entries.find? fun e => e.spec.name = call.name with
  | none => throw (notFound call.name)
  | some e =>
    match c.snapshots[e.source]? with
    | none => throw (notFound call.name)
    | some snapshot =>
      let binding ← snapshot.bind call
      if specOf binding ≠ e.spec then
        throw (.arguments ("catalog binding changed specification: " ++ call.name))
      else return binding

def catalog (specOf : β → RuntimeToolSpec) (c : Composite β) : RuntimeToolCatalog β where
  specs := byName (c.entries.map Sourced.spec)
  bind := c.bind specOf

end Composite

private theorem byName_perm (specs : List RuntimeToolSpec) : (byName specs).Perm specs :=
  List.perm_insertionSort _ specs

private theorem byName_eq {specs specs' : List RuntimeToolSpec} (hperm : specs.Perm specs')
    (hnodup : (specs.map RuntimeToolSpec.name).Nodup) : byName specs = byName specs' := by
  have hsorted : ∀ specs : List RuntimeToolSpec,
      (byName specs).Pairwise fun a b => a.name ≤ b.name := by
    intro specs
    have : Std.Total fun a b : RuntimeToolSpec => a.name ≤ b.name := ⟨fun a b => le_total _ _⟩
    have : IsTrans RuntimeToolSpec fun a b => a.name ≤ b.name := ⟨fun _ _ _ => le_trans⟩
    exact List.pairwise_insertionSort _ specs
  refine List.Perm.eq_of_pairwise ?_ (hsorted specs) (hsorted specs')
    (((byName_perm specs).trans hperm).trans (byName_perm specs').symm)
  intro a b ha hb hab hba
  have ha' : a ∈ specs := (byName_perm specs).mem_iff.mp ha
  have hb' : b ∈ specs := hperm.mem_iff.mpr ((byName_perm specs').mem_iff.mp hb)
  exact List.inj_on_of_nodup_map hnodup ha' hb' (le_antisymm hab hba)

private theorem find_named {α : Type} {name : α → String} {l : List α} (hnodup : (l.map name).Nodup)
    {a : α} (ha : a ∈ l) {n : String} (hn : name a = n) :
    l.find? (fun b => name b = n) = some a := by
  cases hfound : l.find? (fun b => name b = n) with
  | none => exact absurd hn (by simpa using List.find?_eq_none.mp hfound a ha)
  | some b =>
    have hb : name b = n := by simpa using List.find?_some hfound
    rw [List.inj_on_of_nodup_map hnodup (List.mem_of_find?_eq_some hfound) ha (hb.trans hn.symm)]

namespace RuntimeToolRegistry

variable {s : Schemas ν} {specOf : τ → RuntimeToolSpec} {r r' : RuntimeToolRegistry τ ν}

/-- What `register` makes of tools. -/
def Entered (s : Schemas ν) (specOf : τ → RuntimeToolSpec) (tools : List τ)
    (entries : List (Entry τ ν)) : Prop :=
  List.Forall₂ (fun tool e => entry s specOf tool = .ok e) tools entries

private theorem add_ok {e : Entry τ ν} (h : r.add e = .ok r') : r'.entries = r.entries ++ [e] := by
  unfold add at h
  split at h
  · cases h
  · cases h
    rfl

private theorem foldlM_register {tools : List τ} (h : tools.foldlM (register s specOf) r = .ok r') :
    ∃ entries, Entered s specOf tools entries ∧ r'.entries = r.entries ++ entries := by
  induction tools generalizing r with
  | nil =>
    cases h
    exact ⟨[], .nil, (List.append_nil _).symm⟩
  | cons tool rest ih =>
    rw [List.foldlM_cons] at h
    obtain ⟨between, hregister, hrest⟩ := Result.bind_ok h
    obtain ⟨e, he, hadd⟩ := Result.bind_ok hregister
    obtain ⟨entries, hentered, hall⟩ := ih hrest
    refine ⟨e :: entries, .cons he hentered, ?_⟩
    rw [hall, add_ok hadd, List.append_assoc]
    rfl

private theorem register_all {tools : List τ} {entries : List (Entry τ ν)}
    (hentered : Entered s specOf tools entries)
    (hnodup : ((r.entries ++ entries).map fun e => e.spec.name).Nodup) :
    ∃ r', tools.foldlM (register s specOf) r = .ok r' ∧ r'.entries = r.entries ++ entries := by
  induction hentered generalizing r with
  | nil => exact ⟨r, rfl, (List.append_nil _).symm⟩
  | @cons tool e rest entries he hrest ih =>
    have hfresh : e.spec.name ∉ r.entries.map fun e => e.spec.name := by
      rw [List.map_append, List.nodup_append] at hnodup
      exact fun hmem => hnodup.2.2 _ hmem _ (List.mem_map_of_mem List.mem_cons_self) rfl
    obtain ⟨between, hadd⟩ : ∃ between, r.add e = .ok between := by
      unfold add
      rw [dif_neg hfresh]
      exact ⟨_, rfl⟩
    have hentries := add_ok hadd
    obtain ⟨r', hrun, hall⟩ := ih (r := between) (by
      rw [hentries, List.append_assoc]
      exact hnodup)
    refine ⟨r', ?_, ?_⟩
    · rw [List.foldlM_cons, register, he]
      show (r.add e >>= _) = _
      rw [hadd]
      exact hrun
    · rw [hall, hentries, List.append_assoc]
      rfl

/-- Tools that can be registered each are registered together exactly if their names differ. -/
private theorem fromTools_iff {tools : List τ} {entries : List (Entry τ ν)}
    (hentered : Entered s specOf tools entries) :
    (∃ r, fromTools s specOf tools = .ok r) ↔ (entries.map fun e => e.spec.name).Nodup := by
  constructor
  · rintro ⟨r, hr⟩
    obtain ⟨entries', hentered', hall⟩ := foldlM_register hr
    have hsame : entries' = entries := by
      refine List.right_unique_forall₂' ?_ hentered' hentered
      intro tool e e' he he'
      exact Except.ok.inj (he.symm.trans he')
    have hdistinct := r.distinct
    rw [hall, hsame] at hdistinct
    exact hdistinct
  · intro hnodup
    obtain ⟨r, hr, -⟩ := register_all (r := empty) hentered hnodup
    exact ⟨r, hr⟩

private theorem entered_flatten {groups : List (List τ)} {rs : List (RuntimeToolRegistry τ ν)}
    (h : List.Forall₂ (fun tools r => fromTools s specOf tools = .ok r) groups rs) :
    Entered s specOf groups.flatten (rs.flatMap entries) := by
  induction h with
  | nil => exact .nil
  | @cons tools r groups rs hr hrest ih =>
    obtain ⟨entries, hentered, hall⟩ := foldlM_register hr
    rw [List.flatten_cons, List.flatMap_cons, hall]
    exact List.rel_append hentered ih

end RuntimeToolRegistry

/-- The visit of a registry, and what the three checks on the way read. -/
structure Turn (τ ν : Type) where
  registry : RuntimeToolRegistry τ ν
  before : Bool
  within : Bool
  after : Bool

namespace Turn

def visit (s : Schemas ν) (t : Turn τ ν) : Visit (Binding τ ν) :=
  ⟨t.before, t.registry.openCatalog s t.within, t.after⟩

def Uncancelled (t : Turn τ ν) : Prop := t.before = false ∧ t.within = false ∧ t.after = false

end Turn

namespace Composite

variable {s : Schemas ν}

private theorem addSpecs_iff {index : Nat} {specs : List RuntimeToolSpec} {entries : List Sourced}
    (hnamed : ∀ spec ∈ specs, spec.name ≠ "")
    (hnodup : (entries.map fun e => e.spec.name).Nodup) (entries' : List Sourced) :
    addSpecs index specs entries = .ok entries' ↔
      entries' = entries ++ specs.map (Sourced.mk index) ∧
        (entries'.map fun e => e.spec.name).Nodup := by
  induction specs generalizing entries with
  | nil =>
    rw [addSpecs, List.map_nil, List.append_nil]
    constructor
    · intro h
      cases h
      exact ⟨rfl, hnodup⟩
    · rintro ⟨rfl, -⟩
      rfl
  | cons spec rest ih =>
    obtain ⟨hspec, hrest⟩ := List.forall_mem_cons.mp hnamed
    rw [addSpecs, if_neg hspec]
    cases hfound : entries.find? fun e => e.spec.name = spec.name with
    | some old =>
      refine ⟨fun h => (nomatch h), ?_⟩
      rintro ⟨heq, hall⟩
      have hold : old.spec.name = spec.name := by simpa using List.find?_some hfound
      have hmem := List.mem_of_find?_eq_some hfound
      rw [heq, List.map_append, List.nodup_append] at hall
      refine absurd hold (hall.2.2 _ (List.mem_map_of_mem hmem) _ ?_)
      exact List.mem_map.mpr ⟨⟨index, spec⟩, List.mem_map_of_mem List.mem_cons_self, rfl⟩
    | none =>
      have hfresh : spec.name ∉ entries.map fun e => e.spec.name := by
        intro hmem
        obtain ⟨e, he, hname⟩ := List.mem_map.mp hmem
        simpa [hname] using List.find?_eq_none.mp hfound e he
      have hextended :
          ((entries ++ [Sourced.mk index spec]).map fun e => e.spec.name).Nodup := by
        rw [List.map_append, List.nodup_append]
        refine ⟨hnodup, List.nodup_singleton _, ?_⟩
        rintro name hname other hother rfl
        rw [List.map_singleton, List.mem_singleton] at hother
        subst hother
        exact hfresh hname
      simpa using ih hrest hextended

/-- What the registries offer, with their indices from `index` on. -/
def sourced (index : Nat) : List (RuntimeToolRegistry τ ν) → List Sourced
  | [] => []
  | r :: rest => (byName (r.entries.map Entry.spec)).map (Sourced.mk index) ++
      sourced (index + 1) rest

private theorem names_sourced (index : Nat) (rs : List (RuntimeToolRegistry τ ν)) :
    ((sourced index rs).map Sourced.spec).Perm
      ((rs.flatMap RuntimeToolRegistry.entries).map Entry.spec) := by
  induction rs generalizing index with
  | nil => exact .nil
  | cons r rest ih =>
    rw [sourced, List.map_append, List.flatMap_cons, List.map_append, List.map_map]
    refine List.Perm.append ?_ (ih (index + 1))
    have hspecs : (byName (r.entries.map Entry.spec)).map (Sourced.spec ∘ Sourced.mk index) =
        byName (r.entries.map Entry.spec) := List.map_id _
    rw [hspecs]
    exact byName_perm _

private theorem mem_sourced {index : Nat} {rs : List (RuntimeToolRegistry τ ν)} {j : Nat}
    {r : RuntimeToolRegistry τ ν} (hr : rs[j]? = some r) {e : Entry τ ν} (he : e ∈ r.entries) :
    ⟨index + j, e.spec⟩ ∈ sourced index rs := by
  induction rs generalizing index j with
  | nil => cases hr
  | cons first rest ih =>
    cases j with
    | zero =>
      cases hr
      refine List.mem_append_left _ (List.mem_map.mpr ⟨e.spec, ?_, rfl⟩)
      exact (byName_perm _).mem_iff.mpr (List.mem_map_of_mem he)
    | succ j =>
      have hrest : ⟨index + 1 + j, e.spec⟩ ∈ sourced (index + 1) rest := ih hr
      rw [show index + (j + 1) = index + 1 + j by omega]
      exact List.mem_append_right _ hrest

/-- A registry is visited as it would be without a cancellation, unless a check reads one. -/
private theorem addSource_visit {t : Turn τ ν} {c c' : Composite (Binding τ ν)} :
    c.addSource (t.visit s) = .ok c' ↔ t.Uncancelled ∧
      c.addSource ⟨false, .ok (t.registry.catalog s), false⟩ = .ok c' := by
  obtain ⟨registry, before, within, after⟩ := t
  constructor
  · intro h
    obtain ⟨u, hbefore, h⟩ := Result.bind_ok h
    obtain ⟨snapshot, hopened, h⟩ := Result.bind_ok h
    obtain ⟨u', hafter, h⟩ := Result.bind_ok h
    obtain ⟨u'', hwithin, hsnapshot⟩ := Result.bind_ok hopened
    cases hsnapshot
    exact ⟨⟨require_ok hbefore, require_ok hwithin, require_ok hafter⟩, h⟩
  · rintro ⟨⟨hbefore, hwithin, hafter⟩, h⟩
    dsimp only at hbefore hwithin hafter
    subst hbefore hwithin hafter
    exact h

private theorem foldlM_visit {turns : List (Turn τ ν)} {c c' : Composite (Binding τ ν)} :
    (turns.map (·.visit s)).foldlM addSource c = .ok c' ↔ (∀ t ∈ turns, t.Uncancelled) ∧
      ((turns.map Turn.registry).map fun r => Visit.mk false (.ok (r.catalog s)) false).foldlM
        addSource c = .ok c' := by
  induction turns generalizing c with
  | nil => exact ⟨fun h => ⟨(fun _ ht => by cases ht), h⟩, fun h => h.2⟩
  | cons t rest ih =>
    simp only [List.map_cons, List.foldlM_cons, List.forall_mem_cons]
    constructor
    · intro h
      obtain ⟨between, hfirst, hrest⟩ := Result.bind_ok h
      obtain ⟨ht, hfirst⟩ := addSource_visit.mp hfirst
      obtain ⟨hall, hrest⟩ := ih.mp hrest
      refine ⟨⟨ht, hall⟩, ?_⟩
      rw [hfirst]
      exact hrest
    · rintro ⟨⟨ht, hall⟩, h⟩
      obtain ⟨between, hfirst, hrest⟩ := Result.bind_ok h
      rw [addSource_visit.mpr ⟨ht, hfirst⟩]
      exact ih.mpr ⟨hall, hrest⟩

private theorem foldlM_addSource {rs : List (RuntimeToolRegistry τ ν)} {c : Composite (Binding τ ν)}
    (hnodup : (c.entries.map fun e => e.spec.name).Nodup) (c' : Composite (Binding τ ν)) :
    (rs.map fun r => Visit.mk false (.ok (r.catalog s)) false).foldlM addSource c = .ok c' ↔
      c' = ⟨c.snapshots ++ rs.map (·.catalog s),
          c.entries ++ sourced c.snapshots.length rs⟩ ∧
        (c'.entries.map fun e => e.spec.name).Nodup := by
  induction rs generalizing c with
  | nil =>
    rw [List.map_nil, List.map_nil, sourced, List.append_nil, List.append_nil]
    constructor
    · intro h
      cases h
      exact ⟨rfl, hnodup⟩
    · rintro ⟨rfl, -⟩
      rfl
  | cons r rest ih =>
    have hnamed : ∀ spec ∈ (r.catalog s).specs, spec.name ≠ "" := by
      intro spec hspec
      obtain ⟨e, -, rfl⟩ := List.mem_map.mp ((byName_perm _).mem_iff.mp hspec)
      exact e.named
    have hspecs := @addSpecs_iff c.snapshots.length _ _ hnamed hnodup
    rw [List.map_cons, List.foldlM_cons]
    have hsource : c.addSource ⟨false, .ok (r.catalog s), false⟩ =
        addSpecs c.snapshots.length (r.catalog s).specs c.entries >>= fun entries =>
          .ok ⟨c.snapshots ++ [r.catalog s], entries⟩ := rfl
    rw [hsource]
    have hentries : c.entries ++ sourced c.snapshots.length (r :: rest) =
        c.entries ++ (r.catalog s).specs.map (Sourced.mk c.snapshots.length) ++
          sourced (c.snapshots.length + 1) rest := (List.append_assoc _ _ _).symm
    have hsnapshots : c.snapshots ++ (r :: rest).map (·.catalog s) =
        c.snapshots ++ [r.catalog s] ++ rest.map (·.catalog s) :=
      List.append_cons _ _ _
    rw [hentries, hsnapshots]
    cases hadded : addSpecs c.snapshots.length (r.catalog s).specs c.entries with
    | error error =>
      refine ⟨fun h => (nomatch h), ?_⟩
      rintro ⟨rfl, hall⟩
      have hfirst := (hspecs _).mpr ⟨rfl, by
        rw [List.map_append, List.nodup_append] at hall
        exact hall.1⟩
      rw [hadded] at hfirst
      cases hfirst
    | ok entries =>
      obtain ⟨rfl, hdistinct⟩ := (hspecs entries).mp hadded
      show (rest.map _).foldlM addSource _ = _ ↔ _
      rw [ih hdistinct]
      simp only [List.length_append, List.length_singleton]

private theorem openCatalog_iff {turns : List (Turn τ ν)} {rs : List (RuntimeToolRegistry τ ν)}
    (hturns : turns.map Turn.registry = rs) (c : Composite (Binding τ ν)) :
    openCatalog (turns.map (·.visit s)) = .ok c ↔ (∀ t ∈ turns, t.Uncancelled) ∧
      c = ⟨rs.map (·.catalog s), sourced 0 rs⟩ ∧
        ((rs.flatMap RuntimeToolRegistry.entries).map fun e => e.spec.name).Nodup := by
  rw [openCatalog, foldlM_visit, hturns, @foldlM_addSource _ _ s rs ⟨[], []⟩ List.nodup_nil,
    List.nil_append, List.nil_append]
  refine and_congr_right fun _ => and_congr_right ?_
  rintro rfl
  have hnames := (names_sourced 0 rs).map RuntimeToolSpec.name
  rw [List.map_map, List.map_map] at hnames
  exact hnames.nodup_iff

private theorem bind_entry {e : Entry τ ν} {call : RuntimeToolCall} {b : Binding τ ν}
    (h : e.bind s call = .ok b) : b = ⟨e, call⟩ := by
  unfold Entry.bind at h
  split at h
  · obtain ⟨u, -, h⟩ := Result.bind_ok h
    exact (Except.ok.inj h).symm
  · exact (Except.ok.inj h).symm
  · cases h

private theorem bind_found {r : RuntimeToolRegistry τ ν} {call : RuntimeToolCall}
    (hcall : call.validate = .ok ()) {e : Entry τ ν} (he : e ∈ r.entries)
    (hname : e.spec.name = call.name) : r.bind s call = e.bind s call := by
  unfold RuntimeToolRegistry.bind
  rw [hcall, find_named r.distinct he hname]
  rfl

private theorem bind_eq {rs : List (RuntimeToolRegistry τ ν)} {r : RuntimeToolRegistry τ ν}
    (hr : r.entries = rs.flatMap RuntimeToolRegistry.entries) (call : RuntimeToolCall) :
    bind Binding.spec ⟨rs.map (·.catalog s), sourced 0 rs⟩ call = r.bind s call := by
  have hspecs := names_sourced 0 rs
  rw [← hr] at hspecs
  have hdistinct : ((sourced 0 rs).map fun e => e.spec.name).Nodup := by
    have hnames := hspecs.map RuntimeToolSpec.name
    rw [List.map_map, List.map_map] at hnames
    exact hnames.nodup_iff.mpr r.distinct
  unfold bind RuntimeToolRegistry.bind
  cases hcall : call.validate with
  | error error => rfl
  | ok u =>
    show (match (sourced 0 rs).find? fun e => e.spec.name = call.name with
      | none => _ | some e => _) = (match r.entries.find? fun e => e.spec.name = call.name with
      | none => _ | some e => _)
    cases hfound : r.entries.find? fun e => e.spec.name = call.name with
    | none =>
      have hnone : (sourced 0 rs).find? (fun e => e.spec.name = call.name) = none := by
        refine List.find?_eq_none.mpr fun x hx => ?_
        have hspec := hspecs.mem_iff.mp (List.mem_map_of_mem hx)
        obtain ⟨e, he, hsame⟩ := List.mem_map.mp hspec
        rw [← hsame]
        exact List.find?_eq_none.mp hfound e he
      rw [hnone]
    | some e =>
      have hname : e.spec.name = call.name := by simpa using List.find?_some hfound
      have hmem := List.mem_of_find?_eq_some hfound
      rw [hr] at hmem
      obtain ⟨own, hown, he⟩ := List.mem_flatMap.mp hmem
      obtain ⟨j, hj⟩ := List.getElem?_of_mem hown
      have hsourced : ⟨0 + j, e.spec⟩ ∈ sourced 0 rs := mem_sourced hj he
      rw [find_named hdistinct hsourced hname]
      have hsnapshot : (rs.map (·.catalog s))[0 + j]? = some (own.catalog s) := by
        rw [Nat.zero_add, List.getElem?_map, hj]
        rfl
      dsimp only
      rw [hsnapshot]
      show own.bind s call >>= _ = e.bind s call
      rw [bind_found hcall he hname]
      cases hbind : e.bind s call with
      | error error => rfl
      | ok b =>
        rw [bind_entry hbind]
        exact if_neg fun hne => hne rfl

end Composite

/-- A catalog composed of registries opens exactly if no check reads a cancellation and all their
tools could have been registered in one, and is then no different from that one. -/
theorem composite_registry (s : Schemas ν) (specOf : τ → RuntimeToolSpec)
    {groups : List (List τ)} {turns : List (Turn τ ν)}
    (hgroups : List.Forall₂
      (fun tools t => RuntimeToolRegistry.fromTools s specOf tools = .ok t.registry)
      groups turns) :
    ((∃ c, Composite.openCatalog (turns.map (·.visit s)) = .ok c) ↔
      (∀ t ∈ turns, t.Uncancelled) ∧
        ∃ r, RuntimeToolRegistry.fromTools s specOf groups.flatten = .ok r) ∧
    ∀ c r, Composite.openCatalog (turns.map (·.visit s)) = .ok c →
      RuntimeToolRegistry.fromTools s specOf groups.flatten = .ok r →
        c.catalog Binding.spec = r.catalog s := by
  generalize hturns : turns.map Turn.registry = rs
  have hgroups : List.Forall₂
      (fun tools r => RuntimeToolRegistry.fromTools s specOf tools = .ok r) groups rs := by
    rw [← hturns, List.forall₂_map_right_iff]
    exact hgroups
  have hentered := RuntimeToolRegistry.entered_flatten hgroups
  constructor
  · rw [RuntimeToolRegistry.fromTools_iff hentered]
    constructor
    · rintro ⟨c, hc⟩
      obtain ⟨hall, -, hnodup⟩ := (Composite.openCatalog_iff hturns c).mp hc
      exact ⟨hall, hnodup⟩
    · rintro ⟨hall, hnodup⟩
      exact ⟨_, (Composite.openCatalog_iff hturns _).mpr ⟨hall, rfl, hnodup⟩⟩
  · intro c r hc hr
    obtain ⟨-, rfl, hnodup⟩ := (Composite.openCatalog_iff hturns c).mp hc
    obtain ⟨entries, hentered', hentries⟩ := RuntimeToolRegistry.foldlM_register hr
    have hsame : r.entries = rs.flatMap RuntimeToolRegistry.entries := by
      rw [hentries]
      exact List.right_unique_forall₂' (fun _ _ _ he he' => Except.ok.inj (he.symm.trans he'))
        hentered' hentered
    have hspecs : byName ((Composite.sourced 0 rs).map Sourced.spec) =
        byName (r.entries.map Entry.spec) := by
      have hperm := Composite.names_sourced 0 rs
      rw [← hsame] at hperm
      refine byName_eq hperm ((hperm.map RuntimeToolSpec.name).nodup_iff.mpr ?_)
      rw [List.map_map]
      exact r.distinct
    have hbind : (Composite.bind Binding.spec ⟨rs.map (·.catalog s), Composite.sourced 0 rs⟩) =
        r.bind s := funext fun call => Composite.bind_eq hsame call
    show RuntimeToolCatalog.mk _ _ = RuntimeToolCatalog.mk _ _
    rw [hspecs, hbind]

def sampleSchemas : Schemas Unit := ⟨fun _ => .ok (), fun _ => none, fun _ _ => .ok ()⟩

def sampleSpec (name : String) : RuntimeToolSpec := { name, parallel := true, rest := .null }

def sampleRegistry (name : String) (h : name ≠ "") : RuntimeToolRegistry RuntimeToolSpec Unit :=
  ⟨[⟨sampleSpec name, sampleSpec name, some (), none, h, rfl⟩], List.nodup_singleton _⟩

/-- Registries of one tool each, visited without a cancellation. -/
def sampleTurns : List (Turn RuntimeToolSpec Unit) :=
  [⟨sampleRegistry "write" (by decide), false, false, false⟩,
    ⟨sampleRegistry "look" (by decide), false, false, false⟩]

theorem composite_registry_sample : ∃ c r,
    Composite.openCatalog (sampleTurns.map (·.visit sampleSchemas)) = .ok c ∧
      RuntimeToolRegistry.fromTools sampleSchemas id [sampleSpec "write", sampleSpec "look"] =
        .ok r ∧ c.catalog Binding.spec = r.catalog sampleSchemas := by
  have hgroups : List.Forall₂
      (fun tools t => RuntimeToolRegistry.fromTools sampleSchemas id tools = .ok t.registry)
      [[sampleSpec "write"], [sampleSpec "look"]] sampleTurns :=
    .cons rfl (.cons rfl .nil)
  have hone : ∃ r, RuntimeToolRegistry.fromTools sampleSchemas id
      [sampleSpec "write", sampleSpec "look"] = .ok r := ⟨_, rfl⟩
  have hcalm : ∀ t ∈ sampleTurns, t.Uncancelled := by
    intro t ht
    rcases List.mem_pair.mp ht with rfl | rfl
    · exact ⟨rfl, rfl, rfl⟩
    · exact ⟨rfl, rfl, rfl⟩
  obtain ⟨r, hr⟩ := hone
  obtain ⟨hopens, hsame⟩ := composite_registry sampleSchemas id hgroups
  obtain ⟨c, hc⟩ := hopens.mpr ⟨hcalm, r, hr⟩
  exact ⟨c, r, hc, hr, hsame c r hc hr⟩

/-- A snapshot as the kernel sees it: of a binding it compares the specification. -/
def RuntimeToolCatalog.inner (c : RuntimeToolCatalog (Binding τ ν)) : Kernel.Catalog :=
  ⟨c.specs, fun _ call => (c.bind call).map Binding.spec⟩

def selects : RuntimeToolSelection → String → Bool
  | .all, _ => true
  | .none, _ => false
  | .only names, name => name ∈ names

private theorem checkSpecs_ok {specs : List RuntimeToolSpec} {seen : List String}
    (hnamed : ∀ spec ∈ specs, spec.name ≠ "")
    (hnodup : (seen.reverse ++ specs.map RuntimeToolSpec.name).Nodup) :
    checkSpecs seen specs = .ok () := by
  induction specs generalizing seen with
  | nil => rfl
  | cons spec rest ih =>
    obtain ⟨hspec, hrest⟩ := List.forall_mem_cons.mp hnamed
    rw [checkSpecs, if_neg hspec, if_neg, ih hrest]
    · simpa using hnodup
    · intro hmem
      rw [List.nodup_append] at hnodup
      exact hnodup.2.2 _ (List.mem_reverse.mpr hmem) _ (List.mem_map_of_mem List.mem_cons_self) rfl

private theorem checkNames_iff {specs : List RuntimeToolSpec} {names : List String} :
    Kernel.checkNames specs names = .ok () ↔ ∀ name ∈ names, ∃ spec ∈ specs, spec.name = name := by
  induction names with
  | nil => simp [Kernel.checkNames]
  | cons name rest ih =>
    rw [Kernel.checkNames, List.forall_mem_cons]
    by_cases hall : specs.all fun spec => spec.name ≠ name
    · rw [if_pos hall]
      refine ⟨fun h => (nomatch h), ?_⟩
      rintro ⟨⟨spec, hspec, hname⟩, -⟩
      exact absurd hname (by simpa using List.all_eq_true.mp hall spec hspec)
    · rw [if_neg hall, ih]
      refine ⟨fun h => ⟨?_, h⟩, fun h => h.2⟩
      simpa using hall

private theorem byName_byName (specs : List RuntimeToolSpec) : byName
    (byName specs) = byName specs := by
  have : Std.Total fun a b : RuntimeToolSpec => a.name ≤ b.name := ⟨fun a b => le_total _ _⟩
  have : IsTrans RuntimeToolSpec fun a b => a.name ≤ b.name := ⟨fun _ _ _ => le_trans⟩
  exact (List.pairwise_insertionSort _ specs).insertionSort_eq

/-- What `select_catalog` makes of a snapshot of a registry. -/
private theorem selectCatalog_iff (s : Schemas ν) (r : RuntimeToolRegistry τ ν)
    (selection : RuntimeToolSelection) (catalog : Kernel.Catalog) :
    selectCatalog selection (r.catalog s).inner = .ok catalog ↔
      selection.validate = .ok () ∧
      (∀ names, selection = .only names → ∀ name ∈ names, ∃ e ∈ r.entries, e.spec.name = name) ∧
      catalog = ⟨(r.catalog s).specs.filter fun spec => selects selection spec.name,
        (r.catalog s).inner.inner⟩ := by
  have hsorted : (r.catalog s).specs.insertionSort (fun a b => a.name ≤ b.name) =
      (r.catalog s).specs := byName_byName _
  have hmem : ∀ spec, spec ∈ (r.catalog s).specs ↔ ∃ e ∈ r.entries, e.spec = spec := by
    intro spec
    exact (byName_perm _).mem_iff.trans List.mem_map
  have hchecked : checkSpecs [] (r.catalog s).specs = .ok () := by
    refine checkSpecs_ok (fun spec hspec => ?_) ?_
    · obtain ⟨e, -, rfl⟩ := (hmem spec).mp hspec
      exact e.named
    · have hnames := (byName_perm (r.entries.map Entry.spec)).map RuntimeToolSpec.name
      rw [List.map_map] at hnames
      exact hnames.nodup_iff.mpr r.distinct
  unfold selectCatalog
  cases hvalid : selection.validate with
  | error error => exact ⟨fun h => (by cases h), fun h => (by cases h.1)⟩
  | ok u =>
    show (checkSpecs [] (r.catalog s).specs >>= fun _ => _) = _ ↔ _
    have hbound : ∀ f : Unit → Result Kernel.Catalog, ((.ok () : Result Unit) >>= f) = f () :=
      fun _ => rfl
    rw [hchecked, hbound]
    cases selection with
    | all =>
      simp only [RuntimeToolCatalog.inner, hsorted, selects, List.filter_true]
      constructor
      · intro h
        cases h
        exact ⟨trivial, fun _ h => (by cases h), rfl⟩
      · rintro ⟨-, -, rfl⟩
        rfl
    | none =>
      simp only [RuntimeToolCatalog.inner, selects, List.filter_false]
      constructor
      · intro h
        cases h
        exact ⟨trivial, fun _ h => (by cases h), rfl⟩
      · rintro ⟨-, -, rfl⟩
        rfl
    | only names =>
      simp only [RuntimeToolCatalog.inner, hsorted, selects]
      have hnames : Kernel.checkNames (r.catalog s).specs names = .ok () ↔
          ∀ name ∈ names, ∃ e ∈ r.entries, e.spec.name = name := by
        rw [checkNames_iff]
        refine forall₂_congr fun name _ => ⟨?_, ?_⟩
        · rintro ⟨spec, hspec, hname⟩
          obtain ⟨e, he, rfl⟩ := (hmem spec).mp hspec
          exact ⟨e, he, hname⟩
        · rintro ⟨e, he, hname⟩
          exact ⟨e.spec, (hmem _).mpr ⟨e, he, rfl⟩, hname⟩
      constructor
      · intro h
        obtain ⟨u, hu, h⟩ := Result.bind_ok h
        cases h
        refine ⟨trivial, fun names' heq => ?_, rfl⟩
        cases heq
        exact hnames.mp hu
      · rintro ⟨-, hall, rfl⟩
        rw [hnames.mpr (hall names rfl)]
        rfl

/-- Whatever the kernel selects of a registry, it refuses a call that is not valid, binds the
selected names as the registry binds them, and no binding differs from its specification. -/
theorem selected_registry (s : Schemas ν) (r : RuntimeToolRegistry τ ν)
    (selection : RuntimeToolSelection) :
    ((∃ catalog, selectCatalog selection (r.catalog s).inner = .ok catalog) ↔
      selection.validate = .ok () ∧ ∀ names, selection = .only names →
        ∀ name ∈ names, ∃ e ∈ r.entries, e.spec.name = name) ∧
    ∀ catalog, selectCatalog selection (r.catalog s).inner = .ok catalog →
      ∀ answer call, catalog.bind answer call = call.validate >>= fun _ =>
        if (∃ e ∈ r.entries, e.spec.name = call.name) ∧ selects selection call.name then
          (r.bind s call).map Binding.spec
        else .error (.arguments ("runtime tool is not selected: " ++ call.name)) := by
  constructor
  · constructor
    · rintro ⟨catalog, hcatalog⟩
      obtain ⟨hvalid, hnames, -⟩ := (selectCatalog_iff s r selection catalog).mp hcatalog
      exact ⟨hvalid, hnames⟩
    · rintro ⟨hvalid, hnames⟩
      exact ⟨_, (selectCatalog_iff s r selection _).mpr ⟨hvalid, hnames, rfl⟩⟩
  · intro catalog hcatalog answer call
    obtain ⟨-, -, rfl⟩ := (selectCatalog_iff s r selection catalog).mp hcatalog
    have hdistinct : ((r.catalog s).specs.map RuntimeToolSpec.name).Nodup := by
      have hnames := (byName_perm (r.entries.map Entry.spec)).map RuntimeToolSpec.name
      rw [List.map_map] at hnames
      exact hnames.nodup_iff.mpr r.distinct
    have hkept := (List.filter_sublist (p := fun spec : RuntimeToolSpec =>
      selects selection spec.name) (l := (r.catalog s).specs)).map RuntimeToolSpec.name
    unfold Kernel.Catalog.bind
    cases hcall : call.validate with
    | error error => rfl
    | ok u =>
      cases u
      by_cases hselected : (∃ e ∈ r.entries, e.spec.name = call.name) ∧ selects selection call.name
      · rw [if_pos hselected]
        obtain ⟨⟨e, he, hname⟩, hselects⟩ := hselected
        have hmem : e.spec ∈ (r.catalog s).specs.filter
            fun spec => selects selection spec.name := by
          refine List.mem_filter.mpr ⟨?_, by rw [hname]; exact hselects⟩
          exact (byName_perm _).mem_iff.mpr (List.mem_map_of_mem he)
        have hfound := find_named (hkept.nodup hdistinct) hmem hname
        have hinner : (r.catalog s).inner.inner answer call =
            (e.bind s call).map Binding.spec :=
          congrArg (Except.map Binding.spec) (Composite.bind_found hcall he hname)
        rw [Composite.bind_found hcall he hname]
        dsimp only
        rw [hfound]
        show ((r.catalog s).inner.inner answer call >>= fun bound => _) = _
        rw [hinner]
        cases hbind : e.bind s call with
        | error error => rfl
        | ok b =>
          rw [Composite.bind_entry hbind]
          exact if_neg fun hne => hne rfl
      · rw [if_neg hselected]
        have hnone : ((r.catalog s).specs.filter fun spec => selects selection spec.name).find?
            (fun spec => spec.name = call.name) = none := by
          refine List.find?_eq_none.mpr fun spec hspec hname => hselected ?_
          obtain ⟨hspec, hselects⟩ := List.mem_filter.mp hspec
          obtain ⟨e, he, rfl⟩ := List.mem_map.mp ((byName_perm _).mem_iff.mp hspec)
          have hname : e.spec.name = call.name := by simpa using hname
          exact ⟨⟨e, he, hname⟩, hname ▸ hselects⟩
        dsimp only
        rw [hnone]
        rfl

def sampleBoth : RuntimeToolRegistry RuntimeToolSpec Unit :=
  ⟨(sampleRegistry "write" (by decide)).entries ++ (sampleRegistry "look" (by decide)).entries,
    by decide⟩

def sampleCall (name : String) : RuntimeToolCall := ⟨"call", name, .structured (.object [])⟩

theorem selected_registry_sample : ∃ catalog,
    selectCatalog (.only ["write"]) (sampleBoth.catalog sampleSchemas).inner = .ok catalog ∧
      catalog.bind 0 (sampleCall "write") = .ok (sampleSpec "write") ∧
      catalog.bind 0 (sampleCall "look") =
        .error (.arguments "runtime tool is not selected: look") := by
  obtain ⟨hopens, hbinds⟩ := selected_registry sampleSchemas sampleBoth (.only ["write"])
  have hnames : ∀ names, RuntimeToolSelection.only ["write"] = .only names →
      ∀ name ∈ names, ∃ e ∈ sampleBoth.entries, e.spec.name = name := by
    rintro names heq
    cases heq
    decide
  obtain ⟨catalog, hcatalog⟩ := hopens.mpr ⟨rfl, hnames⟩
  refine ⟨catalog, hcatalog, ?_, ?_⟩
  · rw [hbinds catalog hcatalog]
    decide +kernel
  · rw [hbinds catalog hcatalog]
    decide +kernel

end Zhir.Tools
