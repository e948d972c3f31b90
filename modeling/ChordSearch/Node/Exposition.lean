import ChordSearch.Node.Metrics

/-! # The metrics page

A node's metrics are served as text, one family after another in name order. Each family
opens with its help and its kind, then lists its readings, a labelled reading as
`name{label="value",...} number`. Labelled counters list only the label values counted so
far, and a family with no reading is left out.

The search latency is a histogram over twelve buckets doubling from a millisecond. The
clock stands still between a search and its answer, so every timed search falls in the first
bucket and the sum of latencies is zero.

A number is written in the shortest form that reads back; from a million on that is the
exponent form (`1e+06`).
-/

namespace ChordSearch

namespace Exposition

/-- The content type of the metrics page. -/
def contentType : String := "text/plain; version=0.0.4; charset=utf-8; escaping=underscores"

/-- A count as a floating-point reading is written. -/
def number (n : Nat) : String :=
  if n < 1000000 then toString n
  else
    let ds := Nat.toDigits 10 n
    let exp := ds.length - 1
    let sig := (ds.reverse.dropWhile (· = '0')).reverse
    let mant := match sig with
      | d :: [] => String.singleton d
      | d :: rest => String.singleton d ++ "." ++ String.ofList rest
      | [] => "0"
    mant ++ "e+" ++ (if exp < 10 then "0" else "") ++ toString exp

/-- A label value with backslash, quote and line feed escaped. -/
def escapeLabel (s : String) : String :=
  String.join (s.toList.map fun c =>
    if c = '\\' then "\\\\" else if c = '"' then "\\\"" else if c = '\n' then "\\n"
    else String.singleton c)

/-- One reading line. -/
def reading (name : String) (labels : List (String × String)) (value : String) : String :=
  let ls := if labels.isEmpty then ""
    else "\x7b" ++ ",".intercalate (labels.map fun (k, v) => k ++ "=\"" ++ escapeLabel v ++ "\"") ++
      "\x7d"
  name ++ ls ++ " " ++ value

/-- The upper bounds of the latency buckets, as written. -/
def bucketBounds : List String :=
  ["0.001", "0.002", "0.004", "0.008", "0.016", "0.032", "0.064", "0.128", "0.256", "0.512",
   "1.024", "2.048", "+Inf"]

/-- The families: name, help, kind and readings. -/
def families (m : Metrics) : List (String × String × String × List String) :=
  let tally (name label : String) (t : Tally) :=
    t.counts.map fun (l, n) => reading name [(label, l)] (number n)
  let commands := m.commands.counts.map fun (k, n) =>
    match k.splitOn "\x00" with
    | [c, s] => reading "gusearch_commands_total" [("command", c), ("status", s)] (number n)
    | _ => reading "gusearch_commands_total" [("command", k)] (number n)
  let latency := "gusearch_search_duration_seconds"
  [("gusearch_commands_total", "Operator commands, by command and status.", "counter", commands),
   ("gusearch_datagrams_received_total", "Datagrams received and decoded, by message type.",
     "counter", tally "gusearch_datagrams_received_total" "type" m.received),
   ("gusearch_datagrams_sent_total", "Datagrams sent, by message type.", "counter",
     tally "gusearch_datagrams_sent_total" "type" m.sent),
   ("gusearch_decode_errors_total", "Datagrams dropped because they did not decode.", "counter",
     [reading "gusearch_decode_errors_total" [] (number m.decodeErrors)]),
   ("gusearch_finger_entries", "Entries in the finger table.", "gauge",
     [reading "gusearch_finger_entries" [] (number m.fingerEntries)]),
   ("gusearch_in_ring", "1 while the node is a ring member.", "gauge",
     [reading "gusearch_in_ring" [] (number m.inRing)]),
   ("gusearch_pings_total", "Completed pings, by outcome.", "counter",
     tally "gusearch_pings_total" "outcome" m.pings),
   (latency, "Time from FETCH_REQ to FETCH_RSP at the originator.", "histogram",
     bucketBounds.map (fun b => reading (latency ++ "_bucket") [("le", b)] (number m.timedSearches)) ++
     [reading (latency ++ "_sum") [] "0", reading (latency ++ "_count") [] (number m.timedSearches)]),
   ("gusearch_searches_total", "Completed searches, by whether anything matched.", "counter",
     tally "gusearch_searches_total" "result" m.searches),
   ("gusearch_send_errors_total", "Datagrams the transport failed to send.", "counter",
     [reading "gusearch_send_errors_total" [] (number m.sendErrors)]),
   ("gusearch_stored_terms", "Terms in the local document store.", "gauge",
     [reading "gusearch_stored_terms" [] (number m.storedTerms)])]

end Exposition

/-- The metrics page of a node. -/
def Metrics.page (m : Metrics) : String :=
  String.join ((Exposition.families m).filterMap fun (name, help, kind, rs) =>
    if rs.isEmpty then none
    else some (String.join ((["# HELP " ++ name ++ " " ++ help, "# TYPE " ++ name ++ " " ++ kind] ++ rs).map
      (· ++ "\n"))))

end ChordSearch
