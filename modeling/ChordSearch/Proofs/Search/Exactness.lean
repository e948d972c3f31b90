import ChordSearch.Proofs.Search.Forwarding
import ChordSearch.Proofs.Index.TermMap

/-! # Conjunctive search is exact

A query by a ring member, through any ring member, returns a fresh transaction id. Once
every datagram is delivered, oldest first, the member has reported one result, for that id:
the query's terms, normalized, without empty ones, ascending and without repeats, and the
documents stored under every one of them, ascending. One fetch is delivered to the entry
member and one to the owner of each term visited, and the terms visited are the shortest
prefix whose postings share no document, or all of them. No member's index or store
changes (`search_exact`).

This holds where the search can run (`Cluster.Searchable`): the wire must carry every
term, every stored document and every ring member. A term longer than 65535 bytes after
normalizing does not fit a fetch, which is then never sent, and no result is reported.
-/

namespace ChordSearch.Cluster

open Search

theorem queryTerms_eq {T Q : List Bytes} (hs : Q.Pairwise fun a b => Bytes.lexLt a b = true)
    (hQ : ∀ s, s ∈ Q ↔ s ≠ [] ∧ ∃ t ∈ T, normalize t = s) : queryTerms T = Q := by
  rw [← DocSet.toList_ofList_of_sorted hs, queryTerms]
  congr 1
  apply DocSet.ext_mem
  intro d
  simp [hQ, and_comm]

theorem map_of_unasked {β : Type} (f : Node → β) (hf : ∀ n, f n.unasked = f n) {c c' : Cluster}
    (h : c'.members.map Node.unasked = c.members.map Node.unasked) :
    c'.members.map f = c.members.map f := by
  have h' := congrArg (Array.map f) h
  simpa [Array.map_map, Function.comp_def, hf] using h'

/-- A search is exact: from a quiescent cluster it can run in, member `i`'s query through
ring member `via` returns transaction id `x = o.lastTx + 1`, and once every datagram is
delivered the member has reported the one result for `x`, with the query's terms `Q` and
the documents `D` stored under all of them. `1 + j` fetches were delivered, where the
first `j` terms are the shortest prefix of `Q` whose postings share no document, or all of
`Q`; no store or index changed. -/
theorem search_exact {c : Cluster} (hc : c.Searchable) (hq : c.queue.toList = [])
    {i : Nat} {o : Node} (hi : c.members[i]? = some o) (hoin : o.ring.inRing = true)
    (hobs : o.reportsEvents = true) {via : NodeRef} (hvia : via ∈ c.ringMembers)
    (T : List Bytes) {Q : List Bytes} (hQs : Q.Pairwise fun a b => Bytes.lexLt a b = true)
    (hQ : ∀ s, s ∈ Q ↔ s ≠ [] ∧ ∃ t ∈ T, normalize t = s)
    (hQw : Q.length < 2 ^ 32 ∧ ∀ s ∈ Q, Codec.Fits s) :
    ∃ (c₁ : Cluster) (k : Nat) (c₂ : Cluster) (D : List Bytes) (j : Nat) (log : List Delivery),
      c.turn i (query via T) = (some (.ok (o.lastTx + 1)), c₁) ∧
      deliverFirst^[k] c₁ = c₂ ∧ c₂.queue.toList = [] ∧
      c₂.events = c.events.push (searchResult o c.clock (o.lastTx + 1) Q D) ∧
      (D.Pairwise fun a b => Bytes.lexLt a b = true) ∧
      (∀ d, d ∈ D ↔ Q ≠ [] ∧ ∀ t ∈ Q, d ∈ (c.stored t).toList) ∧
      c₂.seen.toList = c.seen.toList ++ log ∧
      log.countP (·.datagram.kind? = some .fetchReq) = 1 + j ∧
      j ≤ Q.length ∧ (∀ k < j, ∃ d, ∀ t ∈ Q.take k, d ∈ (c.stored t).toList) ∧
      (j < Q.length → ∀ d, ∃ t ∈ Q.take j, d ∉ (c.stored t).toList) ∧
      c₂.members.map (·.search.store) = c.members.map (·.search.store) ∧
      c₂.members.map (·.search.index) = c.members.map (·.search.index) := by
  have hterms : queryTerms T = Q := queryTerms_eq hQs hQ
  obtain ⟨p, hpf, rfl⟩ := List.mem_map.1 hvia
  obtain ⟨hp, hpin⟩ := List.mem_filter.1 hpf
  have hoi : c.peers[i]? = some o.peer := by
    rw [getElem?_peers, hi]
    rfl
  -- the query: member `i` records the search and sends the entry member the fetch
  have hopen : (c.startTurn o).linkOpen = true :=
    linkOpen_of_handlerOf (hc.reaches.handler i o.peer hoi hoin)
  have hsend := @query_sendsVia (c.startTurn o) p.self T (hc.onWire p hp hpin).isUnset
    (by rw [hterms]; exact exactSet_of_sorted hQs hQw.1 hQw.2) hopen
  obtain ⟨c₁, hturn, hview₁, hseen₁, hq₁⟩ := turn_sendsVia hi hsend
  let o₁ := o.startSearch c.clock ⟨queryTerms T, p.self⟩
  have hv₁ : c₁.view Node.unasked = c.view Node.unasked :=
    (unasked_of_settled hview₁).trans (view_setMember hi rfl)
  have hq₁' : c₁.queue.toList =
      [⟨o.self.addr, p.self.addr, Message.bytes ⟨o.lastTx + 1, .fetchReq o.self.num [] Q []⟩⟩] := by
    simpa [startTurn, hq, hterms] using hq₁
  -- the search runs from owner to owner until the answer to member `i` is queued
  obtain ⟨k, src, log, hset, hsrc, hqk, hseenk, hcount⟩ :=
    fetches_answer hc deliversLast_first hv₁ hi hoin hp hpin (o.lastTx + 1) hQs hQw.1
      (fun s hs => ⟨hQw.2 s hs, ((hQ s).1 hs).1⟩) hq₁'
  have hvk : (deliverFirst^[k] c₁).view Node.unasked = c.view Node.unasked :=
    (unasked_of_settled hset).trans hv₁
  -- member `i` still holds the search in flight
  obtain ⟨m, hm, hmo⟩ := member_of_view (hset.trans hview₁) (getElem?_modify_self hi o₁)
  have hpeek : m.search.searches.peek (o.lastTx + 1) =
      some ⟨o.lastTx + 1, ⟨queryTerms T, p.self⟩, c.clock⟩ := by
    have h := congrArg (fun n : Node => n.search.searches) hmo
    exact (congrArg (Tracker.peek · (o.lastTx + 1)) h).trans (Tracker.peek_add _ _ _ _)
  obtain ⟨hq₂, hev₂, hseen₂, hmem₂⟩ := answer_reported hc deliversLast_first hvk hi hoin hobs hm
    hpeek hsrc (conjoin_onWire hc.storedOnWire Q [] Codec.exactSet_nil) hqk
  have hevents : (deliverFirst^[k] c₁).events = c.events := by
    have h := congrArg Cluster.events hvk
    exact h
  have hclock : (deliverFirst^[k] c₁).clock = c.clock := by
    have h := congrArg Cluster.clock hvk
    exact h
  have hmembers : (deliverFirst (deliverFirst^[k] c₁)).members.map Node.unasked =
      c.members.map Node.unasked := by
    have h := congrArg Cluster.members hvk
    exact hmem₂.trans h
  obtain ⟨hvisits, hmeets, hstops⟩ := conjoin_nil_visits c.stored Q
  refine ⟨c₁, k + 1, _, (conjoin c.stored [] Q).2, (conjoin c.stored [] Q).1,
    log ++ [⟨⟨src, o.self.addr, Message.bytes ⟨o.lastTx + 1, .fetchRsp (conjoin c.stored [] Q).2⟩⟩,
      false⟩], hturn, Function.iterate_succ_apply' _ _ _, hq₂, ?_, conjoin_nil_sorted c.stored Q,
    mem_conjoin_nil c.stored Q, ?_, ?_, hvisits, hmeets, hstops,
    map_of_unasked _ (fun _ => rfl) hmembers, map_of_unasked _ (fun _ => rfl) hmembers⟩
  · rw [hev₂, hevents, hclock, hterms]
  · rw [hseen₂, hseenk, hseen₁, List.append_assoc]
  · have hrsp := conjoin_onWire hc.storedOnWire Q [] Codec.exactSet_nil
    rw [List.countP_append, hcount, List.countP_singleton,
      Datagram.kind?_of_data (m := ⟨o.lastTx + 1, .fetchRsp (conjoin c.stored [] Q).2⟩) rfl hrsp]
    simp [Body.kind, Nat.add_comm]

/-! ### A search across two members -/

/-- Both members of `stillPair` by number. -/
def pairDirectory : Directory := ⟨[(1, refOne.addr), (2, refTwo.addr)]⟩

/-- Node 1 of `stillPair`, holding document `x` under `a`, which it owns. -/
def searchOne : Node :=
  { pairedWith refOne refTwo with
    directory := pairDirectory
    search := { store := Store.mk (TermMap.mk [([97], DocSet.ofList [[120]])]) } }

/-- Node 2 of `stillPair`, holding `x` under `d` and `f` and `y` under `e`, which it owns. -/
def searchTwo : Node :=
  { pairedWith refTwo refOne with
    directory := pairDirectory
    search := { store := Store.mk (TermMap.mk [([100], DocSet.ofList [[120]]),
      ([101], DocSet.ofList [[121]]), ([102], DocSet.ofList [[120]])]) } }

/-- `stillPair` with a term stored at node 1 and three at node 2. -/
def searchPair : Cluster := { stillPair with members := #[searchOne, searchTwo] }

theorem searchPair_sameRing : SameRing searchPair stillPair := ⟨rfl, rfl, rfl⟩

theorem mem_searchPair {j : Nat} {n : Node} (h : searchPair.members[j]? = some n) :
    n = searchOne ∨ n = searchTwo := by
  match j, h with
  | 0, h => exact .inl (Option.some.inj h).symm
  | 1, h => exact .inr (Option.some.inj h).symm

theorem searchPair_holds {j : Nat} {n : Node} (h : searchPair.members[j]? = some n) {t d : Bytes}
    (hd : d ∈ (n.search.store.postings t).toList) :
    (n = searchOne ∧ t = [97] ∨ n = searchTwo ∧ (t = [100] ∨ t = [101] ∨ t = [102])) ∧
      (d = [120] ∨ d = [121]) := by
  obtain ⟨docs, he, hdocs⟩ := TermMap.holds_of_mem_postings hd
  have h1 : (DocSet.ofList [[120]]).toList = [[120]] := by decide
  have h2 : (DocSet.ofList [[121]]).toList = [[121]] := by decide
  rcases mem_searchPair h with rfl | rfl
  · simp only [searchOne, List.mem_singleton, Prod.mk.injEq] at he
    obtain ⟨rfl, rfl⟩ := he
    rw [h1, List.mem_singleton] at hdocs
    exact ⟨.inl ⟨rfl, rfl⟩, .inl hdocs⟩
  · simp only [searchTwo, List.mem_cons, List.not_mem_nil, Prod.mk.injEq, or_false] at he
    rcases he with ⟨rfl, rfl⟩ | ⟨rfl, rfl⟩ | ⟨rfl, rfl⟩
    · rw [h1, List.mem_singleton] at hdocs
      exact ⟨.inr ⟨rfl, .inl rfl⟩, .inl hdocs⟩
    · rw [h2, List.mem_singleton] at hdocs
      exact ⟨.inr ⟨rfl, .inr (.inl rfl)⟩, .inr hdocs⟩
    · rw [h1, List.mem_singleton] at hdocs
      exact ⟨.inr ⟨rfl, .inr (.inr rfl)⟩, .inl hdocs⟩

theorem searchPair_searchable : searchPair.Searchable where
  routes := stillPair_routes.congr searchPair_sameRing
  reaches := stillPair_reaches.congr searchPair_sameRing
  onWire := stillPair_membersOnWire.congr searchPair_sameRing
  stored := by
    intro j n hj t d hd
    have hids : searchPair.ringIds = [refOne.id, refTwo.id] := rfl
    rw [hids]
    obtain ⟨⟨rfl, rfl⟩ | ⟨rfl, rfl | rfl | rfl⟩, -⟩ := searchPair_holds hj hd
    all_goals
      refine ⟨rfl, ?_⟩
      unfold Ring.FirstFrom
      decide +kernel
  storedOnWire := by
    intro t
    have hsub : (searchPair.stored t).toList ⊆ [[120], [121]] := by
      intro d hd
      obtain ⟨j, n, hj, hd⟩ := mem_stored.1 hd
      rcases (searchPair_holds hj hd).2 with rfl | rfl <;> simp
    have hnd : (searchPair.stored t).toList.Nodup := DocSet.nodup _
    refine ⟨?_, fun d hd => ?_⟩
    · have hle := (List.subperm_of_subset hnd hsub).length_le
      simp only [DocSet.size, List.length_cons, List.length_nil] at hle ⊢
      omega
    · rcases List.mem_pair.1 (hsub hd) with rfl | rfl <;> simp [Codec.Fits]
  directory := by
    intro j n k m hj hk _ _
    rcases mem_searchPair hj with rfl | rfl <;> rcases mem_searchPair hk with rfl | rfl <;> rfl

/-- The terms `a`, `d`, `e` and `f`: `x` is stored under `a` and `d`, at different members,
but not under `e`, so a search stops before `f`. -/
def pairQuery : List Bytes := [[97], [100], [101], [102]]

theorem searchPair_query_terms (s : Bytes) :
    s ∈ pairQuery ↔ s ≠ [] ∧ ∃ t ∈ pairQuery, normalize t = s := by
  have hnorm : ∀ t ∈ pairQuery, normalize t = t := by decide +kernel
  constructor
  · intro hs
    refine ⟨?_, s, hs, hnorm s hs⟩
    rintro rfl
    simp [pairQuery] at hs
  · rintro ⟨-, t, ht, rfl⟩
    rw [hnorm t ht]
    exact ht

/-- Node 1 searches `a`, `d`, `e` and `f` through node 2: the fetch goes from node 2 to node 1
for `a`, back to node 2 for `d`, whose postings meet `a`'s in `x`, and to node 2 again for `e`,
where the intersection is empty and the search stops. -/
theorem search_exact_searchPair :
    searchPair.Searchable ∧ searchPair.queue.toList = [] ∧
    searchPair.members[0]? = some searchOne ∧ searchOne.ring.inRing = true ∧
    searchOne.reportsEvents = true ∧ refTwo ∈ searchPair.ringMembers ∧
    pairQuery.Pairwise (fun a b => Bytes.lexLt a b = true) ∧
    (∀ s, s ∈ pairQuery ↔ s ≠ [] ∧ ∃ t ∈ pairQuery, normalize t = s) ∧
    (pairQuery.length < 2 ^ 32 ∧ ∀ s ∈ pairQuery, Codec.Fits s) ∧
    ∃ (c₁ : Cluster) (k : Nat) (c₂ : Cluster) (D : List Bytes) (j : Nat) (log : List Delivery),
      searchPair.turn 0 (query refTwo pairQuery) =
        (some (.ok (searchOne.lastTx + 1)), c₁) ∧
      deliverFirst^[k] c₁ = c₂ ∧ c₂.queue.toList = [] ∧
      c₂.events = searchPair.events.push
        (searchResult searchOne searchPair.clock (searchOne.lastTx + 1) pairQuery D) ∧
      (D.Pairwise fun a b => Bytes.lexLt a b = true) ∧
      (∀ d, d ∈ D ↔ pairQuery ≠ [] ∧
        ∀ t ∈ pairQuery, d ∈ (searchPair.stored t).toList) ∧
      c₂.seen.toList = searchPair.seen.toList ++ log ∧
      log.countP (·.datagram.kind? = some .fetchReq) = 1 + j ∧
      j ≤ pairQuery.length ∧
      (∀ k < j, ∃ d, ∀ t ∈ pairQuery.take k, d ∈ (searchPair.stored t).toList) ∧
      (j < pairQuery.length →
        ∀ d, ∃ t ∈ pairQuery.take j, d ∉ (searchPair.stored t).toList) ∧
      c₂.members.map (·.search.store) = searchPair.members.map (·.search.store) ∧
      c₂.members.map (·.search.index) = searchPair.members.map (·.search.index) := by
  have hvia : refTwo ∈ searchPair.ringMembers := List.mem_cons_of_mem _ (List.mem_singleton.2 rfl)
  have hs : pairQuery.Pairwise (fun a b => Bytes.lexLt a b = true) := by decide
  have hw : pairQuery.length < 2 ^ 32 ∧ ∀ s ∈ pairQuery, Codec.Fits s :=
    ⟨by decide, by simp [pairQuery, Codec.Fits]⟩
  exact ⟨searchPair_searchable, rfl, rfl, rfl, rfl, hvia, hs, searchPair_query_terms, hw,
    search_exact searchPair_searchable rfl rfl rfl rfl hvia pairQuery hs searchPair_query_terms hw⟩

end ChordSearch.Cluster
