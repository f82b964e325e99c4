import Mathlib.Data.List.Basic
import Zhir.Builtins.Workspace

/-!
`grep`: the files of a walk are read line by line until more is found than may be returned.
-/

set_option autoImplicit false
set_option relaxedAutoImplicit false

namespace Zhir.Builtins

open Zhir.Core

abbrev Line := List Char

/-- `str::lines`, with the characters of the unfinished line. -/
def linesFrom (line : Line) : List Char → List Line
  | [] => if line = [] then [] else [line]
  | c :: text =>
    if c = '\n' then
      (if line.getLast? = some '\r' then line.dropLast else line) :: linesFrom [] text
    else linesFrom (line ++ [c]) text

def lines (text : List Char) : List Line := linesFrom [] text

inductive GrepOutputMode
  | content
  | filesWithMatches
  | count
  deriving DecidableEq, Repr

structure GrepArgs where
  pattern : List Char
  limit : Nat
  ignoreCase : Bool
  literal : Bool
  context : Nat
  outputMode : GrepOutputMode
  glob : Option String

/-- An element of `results`. -/
inductive Found
  | content (path : String) (line : Nat) (text : Line) (before after : List Line)
  | file (path : String)
  | count (path : String) (count : Nat)
  deriving DecidableEq, Repr

/-- What `walkdir` yields: a path, as it is shown, and what reading it finds. -/
structure WalkEntry where
  path : String
  isFile : Bool
  file : Option Bytes

/-- The expressions of `fancy_regex` and `globset`. Compiling may fail, and so may matching, which
has a limit on backtracking. -/
structure Patterns where
  escape : List Char → List Char
  regex : List Char → Result (Line → Result Bool)
  glob : String → Result (String → Bool)

structure GrepSearch where
  args : GrepArgs
  regex : Line → Result Bool
  glob : Option (String → Bool)

/-- Which of the checks during a search find it cancelled: those before an entry and those before
a line of it. -/
abbrev Interruption := Nat → Option Nat → Bool

structure GrepReport where
  results : List Found := []
  truncated : Bool := false
  filesSearched : Nat := 0
  filesSkipped : Nat := 0
  deriving DecidableEq, Repr

namespace GrepSearch

def new (patterns : Patterns) (args : GrepArgs) : Result GrepSearch :=
  let pattern := if args.literal then patterns.escape args.pattern else args.pattern
  let pattern := if args.ignoreCase then "(?i)".toList ++ pattern else pattern
  match patterns.regex pattern with
  | .error error => .error error
  | .ok regex =>
    match args.glob.map patterns.glob with
    | none => .ok ⟨args, regex, none⟩
    | some (.ok glob) => .ok ⟨args, regex, some glob⟩
    | some (.error error) => .error error

variable (search : GrepSearch) (interrupted : Interruption)

def accepts (path : String) : Bool := search.glob.all (· path)

def matchesLine (entry index : Nat) (line : Line) : Result Bool :=
  if interrupted entry (some index) = true then .error .cancelled else search.regex line

def push (results : List Found) (found : Found) : List Found × Bool :=
  if results.length = search.args.limit then (results, true) else (results ++ [found], false)

def slide (before : List Line) (line : Line) : List Line :=
  if 0 < search.args.context then
    (if before.length = search.args.context then before.tail else before) ++ [line]
  else before

def scanContent (entry : Nat) (path : String) (index : Nat) (before : List Line)
    (results : List Found) : List Line → Result (List Found × Bool)
  | [] => .ok (results, false)
  | line :: rest =>
    match search.matchesLine interrupted entry index line with
    | .error error => .error error
    | .ok false => scanContent entry path (index + 1) (search.slide before line) results rest
    | .ok true =>
      if results.length = search.args.limit then .ok (results, true)
      else
        scanContent entry path (index + 1) (search.slide before line)
          (results ++ [.content path (index + 1) line before (rest.take search.args.context)]) rest

/-- The loop of `files_with_matches`. -/
def scanFirst (entry : Nat) (path : String) (index : Nat) (results : List Found) :
    List Line → Result (List Found × Bool)
  | [] => .ok (results, false)
  | line :: rest =>
    match search.matchesLine interrupted entry index line with
    | .error error => .error error
    | .ok true => .ok (search.push results (.file path))
    | .ok false => scanFirst entry path (index + 1) results rest

/-- The loop of `count`. -/
def scanCount (entry index count : Nat) : List Line → Result Nat
  | [] => .ok count
  | line :: rest =>
    match search.matchesLine interrupted entry index line with
    | .error error => .error error
    | .ok hit => scanCount entry (index + 1) (count + hit.toNat) rest

def scanFile (entry : Nat) (path : String) (text : List Char) (results : List Found) :
    Result (List Found × Bool) :=
  match search.args.outputMode with
  | .content => search.scanContent interrupted entry path 0 [] results (lines text)
  | .filesWithMatches => search.scanFirst interrupted entry path 0 results (lines text)
  | .count =>
    match search.scanCount interrupted entry 0 0 (lines text) with
    | .error error => .error error
    | .ok count =>
      if 0 < count then .ok (search.push results (.count path count)) else .ok (results, false)

/-- The loop of `run`. -/
def runFrom (host : Host) (entry : Nat) (report : GrepReport) :
    List (Result WalkEntry) → Result GrepReport
  | [] => .ok report
  | .error error :: _ =>
    if interrupted entry none = true then .error .cancelled else .error error
  | .ok e :: rest =>
    if interrupted entry none = true then .error .cancelled
    else if e.isFile = true ∧ search.accepts e.path = true then
      match (read host e.file).bind (utf8 host) with
      | .error _ =>
        runFrom host (entry + 1) { report with filesSkipped := report.filesSkipped + 1 } rest
      | .ok text =>
        match search.scanFile interrupted entry e.path text report.results with
        | .error error => .error error
        | .ok (results, true) =>
          .ok { report with results, filesSearched := report.filesSearched + 1, truncated := true }
        | .ok (results, false) =>
          runFrom host (entry + 1)
            { report with results, filesSearched := report.filesSearched + 1 } rest
    else runFrom host (entry + 1) report rest

def run (host : Host) (walk : List (Result WalkEntry)) : Result GrepReport :=
  search.runFrom interrupted host 0 {} walk

def hit (line : Line) : Bool :=
  match search.regex line with
  | .ok hit => hit
  | .error _ => false

/-- A line of a file, if it matches, with up to `context` lines on each side. -/
def contentHit (path : String) (all : List Line) (line : Line × Nat) : Option Found :=
  if search.hit line.1 = true then
    some (.content path (line.2 + 1) line.1
      ((all.take line.2).drop (line.2 - search.args.context))
      ((all.drop (line.2 + 1)).take search.args.context))
  else none

def fileHits (path : String) (all : List Line) : List Found :=
  match search.args.outputMode with
  | .content => all.zipIdx.filterMap (search.contentHit path all)
  | .filesWithMatches => if all.any search.hit = true then [.file path] else []
  | .count =>
    if all.any search.hit = true then [.count path (all.countP search.hit)] else []

def textOf (host : Host) : Result WalkEntry → Option (Result (List Char))
  | .error _ => none
  | .ok e =>
    if e.isFile = true ∧ search.accepts e.path = true then
      some ((read host e.file).bind (utf8 host))
    else none

def hits (host : Host) (e : Result WalkEntry) : List Found :=
  match e, search.textOf host e with
  | .ok e, some (.ok text) => search.fileHits e.path (lines text)
  | _, _ => []

def unreadable (host : Host) (e : Result WalkEntry) : Bool :=
  match search.textOf host e with
  | some (.error _) => true
  | _ => false

section

variable {search interrupted} {entry index : Nat} {path : String} {line : Line}
  {results results' : List Found} {truncated : Bool} {host : Host}

/-- Some results, and whether there were more than may be returned. -/
def Limited (limit : Nat) (all results : List Found) (truncated : Bool) : Prop :=
  results = all.take limit ∧ truncated = decide (limit < all.length)

/-- The entries that were visited: all, or up to the one with more results than may be returned. -/
structure Visited (search : GrepSearch) (host : Host) (found : List Found)
    (visited rest : List (Result WalkEntry)) (report : GrepReport) : Prop where
  limited : Limited search.args.limit (found ++ visited.flatMap (search.hits host))
    report.results report.truncated
  all : report.truncated = false → rest = []
  last : report.truncated = true →
    (found ++ visited.dropLast.flatMap (search.hits host)).length ≤ search.args.limit

theorem Visited.cons {e : Result WalkEntry} {visited rest : List (Result WalkEntry)}
    {report : GrepReport} (hroom : results.length ≤ search.args.limit)
    (h : Visited search host (results ++ search.hits host e) visited rest report) :
    Visited search host results (e :: visited) rest report := by
  refine ⟨?_, h.all, fun htruncated => ?_⟩
  · rw [List.flatMap_cons, ← List.append_assoc]
    exact h.limited
  · have hlast := h.last htruncated
    cases visited with
    | nil =>
      rw [List.dropLast_singleton, List.flatMap_nil, List.append_nil]
      exact hroom
    | cons next visited =>
      rw [List.dropLast_cons_cons, List.flatMap_cons, ← List.append_assoc]
      exact hlast

theorem textOf_ok {e : WalkEntry} (h : e.isFile = true ∧ search.accepts e.path = true) :
    search.textOf host (.ok e) = some ((read host e.file).bind (utf8 host)) := if_pos h

/-- Nothing stops a search: it is not cancelled, the walk succeeds and so does every match. -/
structure Smooth (search : GrepSearch) (interrupted : Interruption)
    (walk : List (Result WalkEntry)) : Prop where
  calm : ∀ entry index, interrupted entry index = false
  walked : ∀ e ∈ walk, ∃ entry, e = .ok entry
  matched : ∀ line, ∃ b, search.regex line = .ok b

theorem Smooth.matches {walk : List (Result WalkEntry)} (h : Smooth search interrupted walk)
    (entry index : Nat) (line : Line) :
    ∃ b, search.matchesLine interrupted entry index line = .ok b := by
  obtain ⟨b, hb⟩ := h.matched line
  refine ⟨b, ?_⟩
  rw [matchesLine, h.calm, if_neg Bool.false_ne_true, hb]

private theorem Smooth.scanContent {walk : List (Result WalkEntry)}
    (h : Smooth search interrupted walk)
    (before rest : List Line) :
    ∃ r, search.scanContent interrupted entry path index before results rest = .ok r := by
  induction rest generalizing index before results with
  | nil => exact ⟨_, rfl⟩
  | cons line rest ih =>
    obtain ⟨b, hb⟩ := h.matches entry index line
    unfold GrepSearch.scanContent
    rw [hb]
    cases b with
    | false => exact ih ..
    | true =>
      simp only
      split
      · exact ⟨_, rfl⟩
      · exact ih ..

private theorem Smooth.scanFirst {walk : List (Result WalkEntry)}
    (h : Smooth search interrupted walk)
    (rest : List Line) :
    ∃ r, search.scanFirst interrupted entry path index results rest = .ok r := by
  induction rest generalizing index with
  | nil => exact ⟨_, rfl⟩
  | cons line rest ih =>
    obtain ⟨b, hb⟩ := h.matches entry index line
    unfold GrepSearch.scanFirst
    rw [hb]
    cases b with
    | false => exact ih
    | true => exact ⟨_, rfl⟩

private theorem Smooth.scanCount {walk : List (Result WalkEntry)}
    (h : Smooth search interrupted walk)
    (count : Nat) (rest : List Line) :
    ∃ r, search.scanCount interrupted entry index count rest = .ok r := by
  induction rest generalizing index count with
  | nil => exact ⟨_, rfl⟩
  | cons line rest ih =>
    obtain ⟨b, hb⟩ := h.matches entry index line
    unfold GrepSearch.scanCount
    rw [hb]
    exact ih ..

private theorem Smooth.scanFile {walk : List (Result WalkEntry)}
    (h : Smooth search interrupted walk)
    (text : List Char) : ∃ r, search.scanFile interrupted entry path text results = .ok r := by
  unfold GrepSearch.scanFile
  split
  · exact h.scanContent ..
  · exact h.scanFirst ..
  · obtain ⟨count, hcount⟩ :
        ∃ r, search.scanCount interrupted entry 0 0 (lines text) = .ok r :=
      h.scanCount 0 (lines text)
    rw [hcount]
    simp only
    split
    · exact ⟨_, rfl⟩
    · exact ⟨_, rfl⟩

private theorem Smooth.runFrom {walk : List (Result WalkEntry)} {report : GrepReport}
    (h : Smooth search interrupted walk) :
    ∃ r, search.runFrom interrupted host entry report walk = .ok r := by
  induction walk generalizing entry report with
  | nil => exact ⟨_, rfl⟩
  | cons e walk ih =>
    have hrest : Smooth search interrupted walk :=
      ⟨h.calm, fun e he => h.walked e (List.mem_cons_of_mem _ he), h.matched⟩
    obtain ⟨e, rfl⟩ := h.walked e List.mem_cons_self
    unfold GrepSearch.runFrom
    rw [h.calm, if_neg Bool.false_ne_true]
    split
    · split
      · exact ih hrest
      · next text _ =>
        obtain ⟨⟨results, truncated⟩, hscan⟩ :
            ∃ r, search.scanFile interrupted entry e.path text report.results = .ok r :=
          h.scanFile text
        rw [hscan]
        cases truncated with
        | true => exact ⟨_, rfl⟩
        | false => exact ih hrest
    · exact ih hrest

end

end GrepSearch

end Zhir.Builtins
