import ChordSearch.Bytes

/-! # Metrics

Each node counts its traffic and outcomes: datagrams sent and received by message type,
undecodable datagrams, failed sends, pings by outcome, searches by whether anything
matched (with the number of timed searches), and operator commands by name and status. It
also holds three gauges refreshed on the stabilize tick: ring membership, stored terms and
finger entries.

A labelled counter lists only the label values that have been counted; the plain counters
and gauges are always present.
-/

namespace ChordSearch

/-- Counts by label value, label values ascending. -/
structure Tally where
  counts : List (String × Nat)
  deriving DecidableEq, Inhabited

namespace Tally

/-- Count one more under a label value. -/
def bump (t : Tally) (label : String) : Tally :=
  let rec go : List (String × Nat) → List (String × Nat)
    | [] => [(label, 1)]
    | (l, n) :: rest =>
      if label < l then (label, 1) :: (l, n) :: rest
      else if label = l then (l, n + 1) :: rest
      else (l, n) :: go rest
  ⟨go t.counts⟩

/-- The count under a label value. -/
def get (t : Tally) (label : String) : Nat := ((t.counts.find? (·.1 = label)).map (·.2)).getD 0

end Tally

/-- A node's counters and gauges. -/
structure Metrics where
  sent : Tally := ⟨[]⟩
  received : Tally := ⟨[]⟩
  decodeErrors : Nat := 0
  sendErrors : Nat := 0
  pings : Tally := ⟨[]⟩
  searches : Tally := ⟨[]⟩
  timedSearches : Nat := 0
  commands : Tally := ⟨[]⟩
  inRing : Nat := 0
  storedTerms : Nat := 0
  fingerEntries : Nat := 0
  deriving DecidableEq, Inhabited

/-- One reading: a metric name, its labels in name order, and its value. -/
structure Sample where
  name : String
  labels : List (String × String)
  value : Nat
  deriving DecidableEq

namespace Metrics

/-- The separator between a command's name and status inside the command tally. -/
def commandKey (name status : String) : String := name ++ "\x00" ++ status

/-- Record a finished operator command. -/
def command (m : Metrics) (name : String) (ok : Bool) : Metrics :=
  { m with commands := m.commands.bump (commandKey name (if ok then "ok" else "error")) }

/-- The readings of a labelled counter. -/
def tallySamples (name label : String) (t : Tally) : List Sample :=
  t.counts.map fun (l, n) => ⟨name, [(label, l)], n⟩

/-- Every reading, by metric name. -/
def samples (m : Metrics) : List Sample :=
  tallySamples "gusearch_datagrams_sent_total" "type" m.sent ++
  tallySamples "gusearch_datagrams_received_total" "type" m.received ++
  [⟨"gusearch_decode_errors_total", [], m.decodeErrors⟩,
    ⟨"gusearch_send_errors_total", [], m.sendErrors⟩] ++
  tallySamples "gusearch_pings_total" "outcome" m.pings ++
  tallySamples "gusearch_searches_total" "result" m.searches ++
  [⟨"gusearch_search_duration_seconds_count", [], m.timedSearches⟩] ++
  m.commands.counts.map (fun (k, n) =>
    match k.splitOn "\x00" with
    | [c, s] => ⟨"gusearch_commands_total", [("command", c), ("status", s)], n⟩
    | _ => ⟨"gusearch_commands_total", [("command", k)], n⟩) ++
  [⟨"gusearch_in_ring", [], m.inRing⟩, ⟨"gusearch_stored_terms", [], m.storedTerms⟩,
    ⟨"gusearch_finger_entries", [], m.fingerEntries⟩]

end Metrics

end ChordSearch
