import ChordSearch.Proofs.Ring.Lookup
import ChordSearch.Proofs.Index.Canonical

/-! # What the search handlers do in one turn

A search is carried by four handlers, each described here by its effect on the turn, so
that the proof of the whole search never unfolds them:

* `query_sendsVia`: a query draws a transaction id, records the search in flight under it
  and sends the entry member a fetch of its normalized terms (`queryTerms`);
* `receive_fetch_answers` and `receive_fetch_carries`: a member handling a fetch decides,
  as `fetchStep` says, either to answer the originator with documents or to carry the
  search on, by starting a lookup of the next term's owner with the search as its errand;
* `lookupResolved_fetch_sends`: once the owner is known, the member drops the lookup and
  sends the owner the fetch;
* `receive_fetchReply`: the originator drops the search and reports its result
  (`searchResult`).

`fetchStep` is the decision `fetch` takes, read off its text (`fetch_run`). Nodes that
drew a transaction id and recorded a request are `Node.startLookup` and
`Node.startSearch`; `Node.unasked` forgets what a search changes anywhere.
-/

namespace ChordSearch

open NodeM

namespace Tracker

variable {α : Type}

theorem peek_add (tr : Tracker α) (now : Int) (tx : UInt32) (v : α) :
    (tr.add now tx v).peek tx = some ⟨tx, v, now⟩ := by
  have hnone : (tr.entries.filter (·.tx != tx)).find? (·.tx == tx) = none := by
    rw [List.find?_eq_none]
    intro e he
    simpa using (List.mem_filter.1 he).2
  simp [add, peek, List.find?_append, hnone]

theorem take_of_peek {tr : Tracker α} {tx : UInt32} {e : Pending α} (h : tr.peek tx = some e) :
    tr.take tx = (some e, ⟨tr.entries.filter (·.tx != tx)⟩) := by
  simp [take, h]

end Tracker

/-- The node after drawing a transaction id and recording under it a lookup in flight. -/
def Node.startLookup (n : Node) (now : Int) (l : PendingLookup) : Node :=
  { n with lastTx := n.lastTx + 1,
           search := { n.search with lookups := n.search.lookups.add now (n.lastTx + 1) l } }

/-- The node after drawing a transaction id and recording under it a search in flight. -/
def Node.startSearch (n : Node) (now : Int) (p : PendingSearch) : Node :=
  { n with lastTx := n.lastTx + 1,
           search := { n.search with searches := n.search.searches.add now (n.lastTx + 1) p } }

/-- A node with its counters, transaction counter and requests in flight cleared: what a
search leaves as it was everywhere. -/
def Node.unasked (n : Node) : Node :=
  { n.settled with search := { n.settled.search with searches := Tracker.empty } }

theorem forgets_unasked : Forgets Node.unasked := ⟨fun _ _ => rfl, fun _ => rfl⟩

theorem NodeRef.OnWire.isUnset {r : NodeRef} (h : r.OnWire) : r.isUnset = false := by
  simp [NodeRef.isUnset, h.isSet]

theorem Codec.exactSet_nil : Codec.ExactSet [] := ⟨.nil, by simp, by simp⟩

namespace Search

/-- The terms of a query as a search carries them: normalized, the empty ones dropped,
ascending and without repeats. -/
def queryTerms (terms : List Bytes) : List Bytes :=
  (DocSet.ofList ((terms.map normalize).filter (!·.isEmpty))).toList

/-- The event a node reports when search `x` is answered, with its terms and documents. -/
def searchResult (n : Node) (now : Int) (x : UInt32) (terms docs : List Bytes) : Event :=
  ⟨n.self.num, n.self.id, .searchResult, "",
    Bytes.ofString ("search " ++ toString x.toNat ++ " ") ++ bracketed terms ++ Bytes.ofString ": " ++ bracketed docs, now / 1000000⟩

/-- What a member does with a fetch, given the postings it holds: answer the originator with
documents, or carry the search on to the owner of the next term. -/
inductive FetchStep where
  | answer (docs : List Bytes)
  | carry (next : Bytes) (rest acc : List Bytes)

/-- A term's postings among `P`, cut down to the documents matched so far; none matched yet
when `acc` is empty. -/
def narrow (P : Bytes → DocSet) (key : Bytes) (acc : List Bytes) : DocSet :=
  if acc.isEmpty then P key else (P key).inter (DocSet.ofList acc)

/-- The decision `fetch` takes over postings `P`. -/
def fetchStep (P : Bytes → DocSet) (key : Bytes) (remaining accumulated : List Bytes) : FetchStep :=
  if key.isEmpty then
    if remaining.isEmpty then .answer []
    else .carry (popTerm remaining).1 (popTerm remaining).2 []
  else
    let result := narrow P key accumulated
    if result.isEmpty || remaining.isEmpty then .answer result.toList
    else .carry (popTerm remaining).1 (popTerm remaining).2 result.toList

theorem fetch_run (t : Turn) (tx orig : UInt32) (key : Bytes) (rem acc : List Bytes) :
    (fetch tx orig key rem acc).run t =
      (match fetchStep t.node.search.store.postings key rem acc with
        | .answer d => reply orig tx d
        | .carry next rest acc' => forward tx orig next rest acc').run t := by
  unfold fetch fetchStep narrow
  by_cases hk : key.isEmpty = true
  · by_cases hr : rem.isEmpty = true <;> simp [hk, hr]
  · simp only [hk, Bool.false_eq_true, ↓reduceIte, search, StateT.run_bind, StateT.run_get,
      StateT.run_pure, pure_bind]
    split_ifs <;> rfl

theorem query_sendsVia {t : Turn} {via : NodeRef} {terms : List Bytes} (hv : via.isUnset = false)
    (hb : Codec.ExactSet (queryTerms terms)) (hl : t.linkOpen = true) :
    (query via terms).SendsVia Node.settled t
      (t.node.startSearch t.now ⟨queryTerms terms, via⟩) (.ok (t.node.lastTx + 1))
      [(via.addr, Message.bytes
        ⟨t.node.lastTx + 1, .fetchReq t.node.self.num [] (queryTerms terms) []⟩)] := by
  let x := t.node.lastTx + 1
  let m : Message := ⟨x, .fetchReq t.node.self.num [] (queryTerms terms) []⟩
  let t₁ : Turn := { t with node := t.node.startSearch t.now ⟨queryTerms terms, via⟩ }
  have hrun : (query via terms).run t = (transmit via.addr m >>= fun _ => pure (.ok x)).run t₁ := by
    simp [query, hv, nextTx, node, now, modifySearch, modifyNode, self, queryTerms,
      Node.startSearch, t₁, m, x]
  have hsend : (transmit via.addr m).Sends Node.settled t₁ () [(via.addr, m.bytes)] :=
    transmit_sends forgets_settled ⟨by simp [Codec.Fits], hb, Codec.exactSet_nil⟩ hl
  have htail := NodeM.Sends.bind (f := fun _ => (pure (.ok x) : NodeM (Except NodeError UInt32)))
    hsend fun _ _ => NodeM.Sends.pure _ _ _
  rw [List.append_nil] at htail
  exact .of_run_eq hrun (.of_sends htail)

theorem reply_sends {keep : Node → Node} (hk : Forgets keep) {t : Turn} {orig tx : UInt32}
    {docs : List Bytes} {a : Address} (hd : t.node.directory.resolve orig = .ok a)
    (hb : Codec.ExactSet docs) (hl : t.linkOpen = true) :
    (reply orig tx docs).Sends keep t () [(a, Message.bytes ⟨tx, .fetchRsp docs⟩)] := by
  obtain ⟨t', hrun, hs⟩ := @transmit_sends keep hk t a ⟨tx, .fetchRsp docs⟩ hb hl
  exact ⟨t', by simp [reply, node, hd, hrun], hs⟩

theorem lookupFor_sendsVia {t : Turn} {errand : Errand} {term : Bytes}
    (hin : t.node.ring.inRing = true) (hl : t.linkOpen = true) (hr : t.node.self.OnWire)
    (hs : t.node.ring.successor.OnWire) :
    (lookupFor errand term).SendsVia Node.uncounted t
      (t.node.startLookup t.now ⟨errand, term, RingId.hash term⟩) (.ok ())
      [((t.node.peer.relay (t.node.lastTx + 1) t.node.self (RingId.hash term) lookupIndex).dst,
        (t.node.peer.relay (t.node.lastTx + 1) t.node.self (RingId.hash term)
          lookupIndex).data)] := by
  let t₁ : Turn := { t with node := t.node.startLookup t.now ⟨errand, term, RingId.hash term⟩ }
  obtain ⟨t', hrun, hsent⟩ := @resolve_sends t₁ (t.node.lastTx + 1) (RingId.hash term) hin hl hr hs
  refine ⟨t', ?_, hsent⟩
  simp only [t₁, Node.startLookup] at hrun
  simp only [lookupFor, ring, nextTx, node, now, modifySearch, modifyNode, hin, Bool.not_true,
    Bool.false_eq_true, if_false, StateT.run_bind, StateT.run_get, pure_bind, StateT.run_pure,
    StateT.run_modify, hrun]
  rfl

theorem forward_sendsVia {t : Turn} {tx orig : UInt32} {next : Bytes} {rest acc : List Bytes}
    (hin : t.node.ring.inRing = true) (hl : t.linkOpen = true) (hr : t.node.self.OnWire)
    (hs : t.node.ring.successor.OnWire) :
    (forward tx orig next rest acc).SendsVia Node.uncounted t
      (t.node.startLookup t.now ⟨.fetch orig rest acc tx, next, RingId.hash next⟩) ()
      [((t.node.peer.relay (t.node.lastTx + 1) t.node.self (RingId.hash next) lookupIndex).dst,
        (t.node.peer.relay (t.node.lastTx + 1) t.node.self (RingId.hash next)
          lookupIndex).data)] := by
  obtain ⟨t', hrun, hsent⟩ := @lookupFor_sendsVia t (.fetch orig rest acc tx) next hin hl hr hs
  refine ⟨t', ?_, hsent⟩
  simp only [forward, StateT.run_bind, hrun]
  rfl

theorem receive_fetch_run (t : Turn) (src : Address) {x orig : UInt32} {key : Bytes}
    {rem acc : List Bytes} (hb : Body.Exact (.fetchReq orig key rem acc)) :
    ∃ ms, (Node.receive src (Message.bytes ⟨x, .fetchReq orig key rem acc⟩)).run t =
      (match fetchStep t.node.search.store.postings key rem acc with
        | .answer d => reply orig x d
        | .carry next rest acc' => forward x orig next rest acc').run
        { t with node := { t.node with metrics := ms } } := by
  refine ⟨{ t.node.metrics with
    received := t.node.metrics.received.bump (Body.fetchReq orig key rem acc).kind.name }, ?_⟩
  rw [receive_eq (Message.decode_bytes hb), StateT.run_bind]
  exact fetch_run _ x orig key rem acc

theorem receive_fetch_answers {keep : Node → Node} (hk : Forgets keep) {t : Turn} {src : Address}
    {x orig : UInt32} {key : Bytes} {rem acc docs : List Bytes} {a : Address}
    (hb : Body.Exact (.fetchReq orig key rem acc))
    (hstep : fetchStep t.node.search.store.postings key rem acc = .answer docs)
    (hd : t.node.directory.resolve orig = .ok a) (hdocs : Codec.ExactSet docs)
    (hl : t.linkOpen = true) :
    (Node.receive src (Message.bytes ⟨x, .fetchReq orig key rem acc⟩)).Sends keep t ()
      [(a, Message.bytes ⟨x, .fetchRsp docs⟩)] := by
  obtain ⟨ms, hrun⟩ := receive_fetch_run t src (x := x) hb
  rw [hstep] at hrun
  have h := @reply_sends keep hk { t with node := { t.node with metrics := ms } } orig x docs a hd
    hdocs hl
  exact (NodeM.SendsVia.of_run_eq hrun (.of_sends h)).congr (hk.metrics _ _) |>.sends

theorem receive_fetch_carries {t : Turn} {src : Address} {x orig : UInt32} {key : Bytes}
    {rem acc : List Bytes} {next : Bytes} {rest acc' : List Bytes}
    (hb : Body.Exact (.fetchReq orig key rem acc))
    (hstep : fetchStep t.node.search.store.postings key rem acc = .carry next rest acc')
    (hin : t.node.ring.inRing = true) (hl : t.linkOpen = true) (hr : t.node.self.OnWire)
    (hs : t.node.ring.successor.OnWire) :
    (Node.receive src (Message.bytes ⟨x, .fetchReq orig key rem acc⟩)).SendsVia Node.uncounted t
      (t.node.startLookup t.now ⟨.fetch orig rest acc' x, next, RingId.hash next⟩) ()
      [((t.node.peer.relay (t.node.lastTx + 1) t.node.self (RingId.hash next) lookupIndex).dst,
        (t.node.peer.relay (t.node.lastTx + 1) t.node.self (RingId.hash next)
          lookupIndex).data)] := by
  obtain ⟨ms, hrun⟩ := receive_fetch_run t src (x := x) hb
  rw [hstep] at hrun
  have h := @forward_sendsVia { t with node := { t.node with metrics := ms } } x orig next rest acc'
    hin hl hr hs
  exact (NodeM.SendsVia.of_run_eq hrun h).congr (by rfl)

theorem lookupResolved_fetch_sends {t : Turn} {owner : NodeRef} {key : RingId} {tx : UInt32}
    {e : Pending PendingLookup} {orig sid : UInt32} {rest acc : List Bytes}
    (hpeek : t.node.search.lookups.peek tx = some e)
    (herr : e.value.errand = .fetch orig rest acc sid)
    (hb : Body.Exact (.fetchReq orig e.value.term rest acc)) (hl : t.linkOpen = true) :
    (lookupResolved owner key tx).Sends Node.settled t ()
      [(owner.addr, Message.bytes ⟨sid, .fetchReq orig e.value.term rest acc⟩)] := by
  let n₁ : Node := { t.node with search := { t.node.search with
    lookups := ⟨t.node.search.lookups.entries.filter (·.tx != tx)⟩ } }
  have hrun : (lookupResolved owner key tx).run t =
      (transmit owner.addr ⟨sid, .fetchReq orig e.value.term rest acc⟩).run
        { t with node := n₁ } := by
    simp [lookupResolved, search, Tracker.take_of_peek hpeek, herr, modifySearch, modifyNode, n₁]
  have h := @transmit_sends Node.settled forgets_settled { t with node := n₁ } owner.addr
    ⟨sid, .fetchReq orig e.value.term rest acc⟩ hb hl
  exact (NodeM.SendsVia.of_run_eq hrun (.of_sends h)).congr (by rfl) |>.sends

theorem receive_fetchReply {t : Turn} {src : Address} {x : UInt32} {docs : List Bytes}
    {e : Pending PendingSearch} (hb : Codec.ExactSet docs)
    (hpeek : t.node.search.searches.peek x = some e) (hobs : t.node.reportsEvents = true) :
    ∃ n', (Node.receive src (Message.bytes ⟨x, .fetchRsp docs⟩)).run t =
      ((), { t with node := n',
                    events := t.events.push (searchResult t.node t.now x e.value.terms docs) }) ∧
      n'.unasked = t.node.unasked := by
  refine ⟨?_, ?_, ?_⟩
  rotate_left
  · rw [receive_eq (Message.decode_bytes (m := ⟨x, .fetchRsp docs⟩) hb)]
    simp [Node.handle, fetchReply, search, Tracker.take_of_peek hpeek, modifySearch, modifyNode,
      modifyMetrics, report, hobs, searchResult]
    rfl
  · simp [Node.unasked, Node.settled, hobs]

end Search

end ChordSearch
