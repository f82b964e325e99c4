import Mathlib.Data.List.Sublists
import Zhir.Core.Conversation
import Zhir.Core.Commit
import Zhir.Models.Loading
import Zhir.Storage.Chains
import Zhir.Storage.Resources

/-!
Reclaiming: what a later request loads, against what `reachable` lists.
-/

set_option autoImplicit false
set_option relaxedAutoImplicit false

namespace Zhir.Storage

open Zhir.Core
open Zhir.Models (resolveMessage messageRefs markers storedRef outputRefs markerKey)

def messageMarkers : Message → List ResourceRef
  | .assistant output providerData =>
    output.flatMap (fun
      | .providerToolCall call => markers call.data
      | _ => []) ++ markers providerData
  | _ => []

/-- Messages of a later request: those of the history, or of a part that is seeded or appended. -/
def Requested (c : Checkpoint) (message : Message) : Prop :=
  ∃ entries, entries <:+: c.history.entries ∧ message ∈ conversation entries

private theorem storedRef_source {content : Content} {r : ResourceRef}
    (h : storedRef content = some r) :
    contentSource content = some r := by
  cases content with
  | resource input =>
    simp only [storedRef] at h
    split at h
    · exact h
    · cases h
  | _ => cases h

private theorem mem_storedRefs {contents : List Content} {r : ResourceRef}
    (h : r ∈ contents.filterMap storedRef) :
    ∃ content ∈ contents, contentSource content = some r := by
  obtain ⟨content, hcontent, hr⟩ := List.mem_filterMap.mp h
  exact ⟨content, hcontent, storedRef_source hr⟩

private theorem content_or_marker {message : Message} {r : ResourceRef}
    (h : r ∈ messageRefs message) :
    (∃ content ∈ messageContents message, contentSource content = some r) ∨
      r ∈ messageMarkers message := by
  cases message with
  | assistant output providerData =>
    rcases List.mem_append.mp h with h | h
    · obtain ⟨item, hitem, hr⟩ := List.mem_flatMap.mp h
      cases item with
      | content content =>
        refine .inl ⟨content, ?_, storedRef_source (Option.mem_toList.mp hr)⟩
        exact List.mem_flatMap.mpr ⟨_, hitem, List.mem_singleton_self content⟩
      | providerToolCall call =>
        rcases List.mem_append.mp hr with hr | hr
        · obtain ⟨content, hcontent, hsource⟩ := mem_storedRefs hr
          exact .inl ⟨content, List.mem_flatMap.mpr ⟨_, hitem, hcontent⟩, hsource⟩
        · exact .inr (List.mem_append_left _ (List.mem_flatMap.mpr ⟨_, hitem, hr⟩))
      | _ => cases hr
    · exact .inr (List.mem_append_right _ h)
  | _ => exact .inl (mem_storedRefs h)

private theorem marker_mem {message : Message} {r : ResourceRef} (h : r ∈ messageMarkers message) :
    r ∈ messageRefs message := by
  cases message with
  | assistant output providerData =>
    rcases List.mem_append.mp h with h | h
    · obtain ⟨item, hitem, hr⟩ := List.mem_flatMap.mp h
      refine List.mem_append_left _ (List.mem_flatMap.mpr ⟨item, hitem, ?_⟩)
      cases item with
      | providerToolCall call => exact List.mem_append_right _ hr
      | _ => cases hr
    · exact List.mem_append_right _ h
  | _ => cases h

/-- Every content of the messages has `P`. -/
def ContentsIn (P : Content → Prop) (messages : List Message) : Prop :=
  ∀ message ∈ messages, ∀ content ∈ messageContents message, P content

private theorem contentsIn_conversation {P : Content → Prop} {entries : List HistoryEntry}
    (h : ∀ entry ∈ entries, ∀ content ∈ messageContents entry.message, P content) :
    ContentsIn P (conversation entries) := by
  intro message hmessage content hcontent
  rcases mem_conversation hmessage with ⟨entry, hentry, rfl⟩ | ⟨output, data, rfl, hitems⟩
  · exact h entry hentry content hcontent
  · obtain ⟨item, hitem, hcontent⟩ := List.mem_flatMap.mp hcontent
    obtain ⟨entry, hentry, reported, reportedData, hreported, hitem⟩ := hitems item hitem
    refine h entry hentry content ?_
    rw [hreported]
    exact List.mem_flatMap.mpr ⟨item, hitem, hcontent⟩

section

variable {σ : Type}

/-- A list of references that a host may keep in place of everything the store has. -/
structure Complete (store : ResourceStore σ) (parse : List UInt8 → Result Value) (s : σ)
    (c : Checkpoint) (listed : List ResourceRef) : Prop where
  /-- Each entry is a stored resource, and no key is listed twice. -/
  once : ∃ keys : List String, listed.map ResourceRef.source = keys.map ResourceSource.stored ∧
    keys.Nodup
  /-- Whatever a later request loads is listed. -/
  loads : ∀ message budget message' l, Requested c message →
    resolveMessage store s message ⟨budget, []⟩ = .ok (message', l) →
    ∀ r ∈ l.loaded, ∃ r' ∈ listed, r'.source = r.source
  /-- Every node and every segment of the media chains is listed. -/
  chains : ∀ x key, OnChain store parse s c x → x.source = .stored key →
    ∃ r ∈ listed, r.source = x.source
  /-- With only the listed resources left, later requests resolve as before. -/
  kept : ∀ s', (∀ r, (∃ r' ∈ listed, r'.source = r.source) → store.read r s' = store.read r s) →
    ∀ message budget result, Requested c message →
      resolveMessage store s message ⟨budget, []⟩ = .ok result →
      resolveMessage store s' message ⟨budget, []⟩ = .ok result

/-- Every stored resource that a marker names, in a message of a later request that resolves at
all, is also named by a content or lies on a media chain. -/
def MarkersCovered (store : ResourceStore σ) (parse : List UInt8 → Result Value) (s : σ)
    (c : Checkpoint) : Prop :=
  ∀ message, Requested c message →
    (∃ budget result, resolveMessage store s message ⟨budget, []⟩ = .ok result) →
    ∀ r ∈ messageMarkers message, ∀ key, r.source = .stored key →
      InContents c key ∨ ∃ x, OnChain store parse s c x ∧ x.source = .stored key

variable {store : ResourceStore σ} {parse : List UInt8 → Result Value} {s : σ}
  {known : List String}

private theorem listed_iff {found : Reachable} (h : found.Tidy) {key : String} :
    key ∈ found.keys ↔ ∃ r ∈ found.resources, r.source = .stored key := by
  have hsources : ResourceSource.stored key ∈ found.resources.map ResourceRef.source ↔
      key ∈ found.keys := by
    rw [h.sources, List.mem_map]
    constructor
    · rintro ⟨key', hkey', hsame⟩
      obtain rfl := ResourceSource.stored.inj hsame
      exact hkey'
    · exact fun hkey => ⟨key, hkey, rfl⟩
  rw [← hsources, List.mem_map]

private theorem inContents_of_requested {c : Checkpoint} {message : Message}
    (h : Requested c message)
    {content : Content} (hcontent : content ∈ messageContents message) {r : ResourceRef}
    (hr : contentSource content = some r) {key : String} (hsource : r.source = .stored key) :
    InContents c key := by
  obtain ⟨entries, hentries, hmessage⟩ := h
  have hhistory : ContentsIn (fun content => content ∈ checkpointContents c)
      (conversation entries) := by
    refine contentsIn_conversation fun entry hentry content hcontent => ?_
    simp only [checkpointContents, List.mem_append]
    refine .inl (.inl (.inl ?_))
    exact List.mem_flatMap.mpr ⟨entry, hentries.subset hentry, hcontent⟩
  exact ⟨content, hhistory message hmessage content hcontent, r, hr, hsource⟩

/-- The traversal ends, and what it lists is complete exactly if all markers are covered. -/
theorem reachable_complete_iff (hstore : Keyed store s known) (c : Checkpoint) :
    (∃ result, ∀ rounds, known.length < rounds →
      reachable store parse s rounds c = some result) ∧
    ∀ rounds found, reachable store parse s rounds c = some (.ok found) →
      (Complete store parse s c found.resources ↔ MarkersCovered store parse s c) := by
  refine ⟨reachable_ends hstore c, fun rounds found h => ?_⟩
  obtain ⟨htidy, hkeys⟩ := reachable_ok hstore h
  constructor
  · rintro hcomplete message hrequested ⟨budget, ⟨message', l⟩, hresolved⟩ r hr key hsource
    obtain ⟨hloaded, -⟩ := Models.loaded_of_message hresolved
    obtain ⟨r', hr', hsame⟩ := hcomplete.loads message budget message' l hrequested hresolved r
      (by rw [hloaded]; exact marker_mem hr)
    exact (hkeys key).mp ((listed_iff htidy).mpr ⟨r', hr', hsame.trans hsource⟩)
  · intro hcovered
    have hloads : ∀ message budget result, Requested c message →
        resolveMessage store s message ⟨budget, []⟩ = .ok result →
        ∀ r ∈ messageRefs message, ∃ r' ∈ found.resources, r'.source = r.source := by
      rintro message budget ⟨message', l⟩ hrequested hresolved r hr
      obtain ⟨bytes, hbytes⟩ := (Models.loaded_of_message hresolved).2 r hr
      obtain ⟨key, -, hsource⟩ := hstore.stored r bytes hbytes
      rw [hsource, ← listed_iff htidy, hkeys]
      rcases content_or_marker hr with ⟨content, hcontent, hcontentSource⟩ | hmarker
      · exact .inl (inContents_of_requested hrequested hcontent hcontentSource hsource)
      · exact hcovered message hrequested ⟨budget, _, hresolved⟩ r hmarker key hsource
    refine ⟨⟨found.keys, htidy.sources, htidy.nodup⟩, ?_, ?_, ?_⟩
    · intro message budget message' l hrequested hresolved r hr
      rw [(Models.loaded_of_message hresolved).1] at hr
      exact hloads message budget _ hrequested hresolved r hr
    · intro x key hx hsource
      rw [hsource, ← listed_iff htidy, hkeys]
      exact .inr ⟨x, hx, hsource⟩
    · rintro s' hsame message budget ⟨message', l⟩ hrequested hresolved
      refine (Models.follows_message message).same ?_ _ _ _ hresolved
      intro r hr
      exact hsame r (hloads message budget _ hrequested hresolved r hr)

end

def sampleRef (key : String) : ResourceRef := Resources.reference key key "application/json"

/-- `SealedMedia` as JSON text. -/
def sampleNodeText : String :=
  "\x7b\"stream_id\":\"a\",\"session_id\":\"session\",\"epoch\":0,\"chunks\":[],\"resource\":" ++
    "\x7b\"id\":\"data\",\"media_type\":\"application/json\",\"name\":null,\"source\":" ++
    "\x7b\"key\":\"data\",\"kind\":\"stored\"\x7d,\"metadata\":\x7b\x7d\x7d,\"previous\":" ++
    "\x7b\"id\":\"node\",\"media_type\":\"application/json\",\"name\":null,\"source\":" ++
    "\x7b\"key\":\"node\",\"kind\":\"stored\"\x7d,\"metadata\":\x7b\x7d\x7d\x7d"

def sampleNodeBytes : List UInt8 := sampleNodeText.toUTF8.data.toList

def sampleParse (bytes : List UInt8) : Result Value :=
  if bytes = sampleNodeBytes then
    .ok (.object [("stream_id", .string "a"), ("session_id", .string "session"),
      ("epoch", Models.decimal 0), ("chunks", .array []),
      ("resource", Models.refToValue (sampleRef "data")),
      ("previous", Models.refToValue (sampleRef "node"))])
  else .error (.invalid "invalid media node")

def sampleEntries : Resources.Entries :=
  (∅ : Resources.Entries).insert "node" ⟨"application/json", sampleNodeBytes⟩
    |>.insert "data" ⟨"application/json", [1, 2]⟩
    |>.insert "picture" ⟨"image/png", [1, 2, 3]⟩

def samplePicture : ResourceRef := Resources.reference "picture" "picture" "image/png"

/-- A settled provider call whose replay data names a picture. -/
def sampleDrawn (output : List Content) : HistoryEntry where
  id := .output "session" (some "generation") "caller" "item"
  origin := some ⟨"session", "item", some "generation", "caller", "call"⟩
  message := .assistant
    [.providerToolCall
      { id := "call", provider := "provider", name := "draw", status := .completed
        outcome := some (.success .null), output
        data := .object [("picture", Models.marker samplePicture)] }] .null

/-- A cyclic chain, and a call that still has its picture among its output. -/
def sampleCyclic : Checkpoint :=
  { sampleCheckpoint [sampleEntry 0 "go",
      sampleDrawn [.resource { resource := samplePicture, extensions := [] }]] with
    active.media := (∅ : MediaCursors).insert "output:a:0" ⟨0, 0, sampleRef "node"⟩ }

private theorem memory_keyed (entries : Resources.Entries) :
    Keyed memoryResourceStore entries entries.keys where
  stored r bytes h := by
    obtain ⟨-, key, hsource, hstored⟩ := Resources.read_iff.mp h
    refine ⟨key, ?_, hsource⟩
    rw [Std.ExtTreeMap.mem_keys, Std.ExtTreeMap.mem_iff_isSome_getElem?, hstored]
    rfl
  same r r' bytes bytes' hsame h h' := by
    obtain ⟨-, key, hsource, hstored⟩ := Resources.read_iff.mp h
    obtain ⟨-, key', hsource', hstored'⟩ := Resources.read_iff.mp h'
    obtain rfl : key = key' :=
      ResourceSource.stored.inj (hsource.symm.trans (hsame.trans hsource'))
    have hentry := Option.some.inj (hstored.symm.trans hstored')
    exact congrArg Resources.Stored.bytes hentry

theorem reachable_complete_cyclic : ∃ found,
    reachable memoryResourceStore sampleParse sampleEntries 5 sampleCyclic = some (.ok found) ∧
      found.keys = ["picture", "node", "data"] ∧
      Complete memoryResourceStore sampleParse sampleEntries sampleCyclic found.resources := by
  have hrun : reachable memoryResourceStore sampleParse sampleEntries 5 sampleCyclic =
      some (.ok ⟨["picture", "node", "data"], ["node"],
        [samplePicture, sampleRef "node", sampleRef "data"]⟩) := by
    decide +kernel
  refine ⟨_, hrun, rfl, ?_⟩
  have hiff := (reachable_complete_iff (memory_keyed sampleEntries) sampleCyclic).2 5 _ hrun
  refine hiff.mpr ?_
  -- The only marker is that of the call, and it names the picture in the call's output.
  have hmarkers : ∀ entries ∈ sampleCyclic.history.entries.sublists,
      ∀ message ∈ conversation entries, ∀ r ∈ messageMarkers message, r = samplePicture := by
    decide +kernel
  have hcontent : InContents sampleCyclic "picture" :=
    ⟨.resource { resource := samplePicture, extensions := [] }, by decide +kernel, _, rfl, rfl⟩
  rintro message ⟨entries, hentries, hmessage⟩ - r hr key hkey
  rw [hmarkers entries (List.mem_sublists.mpr hentries.sublist) message hmessage r hr] at hkey
  cases hkey
  exact .inl hcontent

def sampleReplaced : HistoryEntry := sampleDrawn [.text "drawn"]

def sampleUncovered : Checkpoint := sampleCheckpoint [sampleEntry 0 "go", sampleReplaced]

theorem reachable_incomplete : ¬ ∀ (c : Checkpoint) (rounds : Nat) (found : Reachable),
    c.validate = .ok () →
    reachable memoryResourceStore sampleParse sampleEntries rounds c = some (.ok found) →
    Complete memoryResourceStore sampleParse sampleEntries c found.resources := by
  intro h
  have hvalid : sampleUncovered.validate = .ok () := by decide +kernel
  have hrun : reachable memoryResourceStore sampleParse sampleEntries 1 sampleUncovered =
      some (.ok {}) := by decide +kernel
  have hcomplete := h sampleUncovered 1 {} hvalid hrun
  have hresolved : (resolveMessage memoryResourceStore sampleEntries sampleReplaced.message
      ⟨3, []⟩).map (fun r => r.2.loaded) = .ok [samplePicture] := by decide +kernel
  have hrequested : Requested sampleUncovered sampleReplaced.message :=
    ⟨[sampleReplaced], ⟨[sampleEntry 0 "go"], [], rfl⟩, by decide +kernel⟩
  cases hresult : resolveMessage memoryResourceStore sampleEntries sampleReplaced.message
    ⟨3, []⟩ with
  | error error =>
    rw [hresult] at hresolved
    cases hresolved
  | ok result =>
    rw [hresult] at hresolved
    have hloaded : result.2.loaded = _ := Except.ok.inj hresolved
    obtain ⟨r, hr, -⟩ := hcomplete.loads _ 3 result.1 result.2 hrequested hresult samplePicture
      (by rw [hloaded]; simp)
    cases hr

end Zhir.Storage
