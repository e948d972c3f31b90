import ChordSearch.Proofs.Search.Placement

/-! # A search goes from owner to owner

The search as the cluster runs it, one datagram at a time. A datagram queued alone for a
ring member reaches that member (`deliver_to_member`). A member handed a fetch either
answers the originator (`hop_answers`) or carries the search on: it looks up the owner of
the next term and, once the lookup's walk is over, sends that owner the fetch
(`lookup_fetches`, `hop_carries`). By induction on the terms left, the documents that
reach the originator are what `conjoin` computes over what is stored, and the fetches
delivered on the way are the terms it visits (`hops_answer`, `fetches_answer`). The
originator then reports the result (`answer_reported`).

Each step is read through a view. A step changes members only in what `Node.unasked`
forgets (counters, transaction counters, requests in flight), and a whole hop leaves the
cluster as `Cluster.settled` sees it, which keeps the searches in flight.
-/

namespace ChordSearch.Cluster

open Search

theorem unasked_of_settled {c c' : Cluster} (h : c'.settled = c.settled) :
    c'.view Node.unasked = c.view Node.unasked :=
  @view_coarsen Node.settled Node.unasked (fun _ => rfl) c c' h

theorem member_of_view {keep : Node → Node} {c c' : Cluster} (h : c'.view keep = c.view keep)
    {j : Nat} {n : Node} (hj : c.members[j]? = some n) :
    ∃ m, c'.members[j]? = some m ∧ keep m = keep n := by
  have hj' := congrArg (fun c => c.members[j]?) h
  simp only [getElem?_view, hj, Option.map_some] at hj'
  exact Option.map_eq_some_iff.1 hj'

theorem deliver_to_member {c c' : Cluster} (hn : c.Reaches) {next : Cluster → Cluster}
    (hnext : DeliversLast [] next) (hv : c'.view Node.unasked = c.view Node.unasked)
    {p : Peer} (hp : p ∈ c.peers) (hpin : p.ring.inRing = true) {d : Datagram}
    (hsrc : d.src ∉ c.cut) (hdst : d.dst = p.self.addr) (hq : c'.queue.toList = [d]) :
    ∃ (j : Nat) (n m : Node) (c'' : Cluster), c.members[j]? = some n ∧ n.peer = p ∧
      c''.members[j]? = some m ∧ m.unasked = n.unasked ∧ c''.linkOpen m.self.addr = true ∧
      (∀ keep, c''.view keep = c'.view keep) ∧ c''.queue.toList = [] ∧
      c''.seen = c'.seen.push ⟨d, false⟩ ∧
      next c' = (c''.turn j (Node.receive d.src d.data)).2 := by
  have hring : SameRing c' c := sameRing_of_view forgets_unasked hv
  obtain ⟨j, hj⟩ := List.mem_iff_getElem?.1 hp
  obtain ⟨n, hnj, hnp⟩ : ∃ n, c.members[j]? = some n ∧ n.peer = p := by
    rw [getElem?_peers] at hj
    exact Option.map_eq_some_iff.1 hj
  obtain ⟨Q, hQ, hstep⟩ := hnext c' d (by simpa using hq)
  have hhandler : ({ c' with queue := Q } : Cluster).handlerOf d.dst = some j := by
    have h : c'.handlerOf d.dst = some j := by
      rw [hring.handlerOf, hdst]
      exact hn.handler j p hj hpin
    exact h
  have hcut : d.dst ∉ c'.cut := by
    rw [hring.cut, hdst]
    exact hn.uncut p hp hpin
  obtain ⟨c'', hview, hq'', hseen, hdel⟩ := deliverOne_member (c := { c' with queue := Q }) (d := d)
    (by rw [hring.cut]; exact hsrc) hcut hhandler
  have hv'' : c''.view Node.unasked = c.view Node.unasked := (hview Node.unasked).trans hv
  obtain ⟨m, hm, hmn⟩ := member_of_view hv'' hnj
  have hmp : m.peer = p := (congrArg Node.peer hmn).trans hnp
  have hself : m.self = p.self := congrArg Peer.self hmp
  have hopen : c''.linkOpen m.self.addr = true := by
    apply linkOpen_of_handlerOf (j := j)
    rw [(sameRing_of_view forgets_unasked hv'').handlerOf, hself]
    exact hn.handler j p hj hpin
  refine ⟨j, n, m, c'', hnj, hnp, hm, hmn, hopen, fun keep => hview keep, ?_, hseen, ?_⟩
  · rw [hq'', hQ]
  · rw [hstep, hdel]

/-- A lookup that member `j` started for a search: the walk ends at the owner of the term,
and the member sends the owner the fetch the lookup was for. On the way only the lookup's
requests and its answer are delivered. -/
theorem lookup_fetches {cB c₃ : Cluster} (hr : cB.Routes) (hn : cB.Reaches) (hw : cB.MembersOnWire)
    {next : Cluster → Cluster} (hnext : DeliversLast [] next) {j : Nat} {n₁ : Node}
    (hj : cB.members[j]? = some n₁) (hin : n₁.ring.inRing = true) {tx x orig : UInt32}
    {term : Bytes} {rest acc : List Bytes} {at_ : Int}
    (hpeek : n₁.search.lookups.peek tx =
      some ⟨tx, ⟨.fetch orig rest acc x, term, RingId.hash term⟩, at_⟩)
    (hb : Body.Exact (.fetchReq orig term rest acc)) (hc₃ : c₃.uncounted = cB.uncounted)
    (hq₃ : c₃.queue.toList = [n₁.peer.relay tx n₁.self (RingId.hash term) lookupIndex]) :
    ∃ (k : Nat) (owner : NodeRef) (log : List Delivery),
      (next^[k] c₃).settled = cB.settled ∧ owner ∈ cB.ringMembers ∧
      Ring.FirstFrom cB.ringIds (RingId.hash term) owner.id ∧
      (next^[k] c₃).queue.toList =
        [⟨n₁.self.addr, owner.addr, Message.bytes ⟨x, .fetchReq orig term rest acc⟩⟩] ∧
      (next^[k] c₃).seen.toList = c₃.seen.toList ++ log ∧
      ∀ e ∈ log, e.datagram.kind? ≠ some .fetchReq := by
  have hpj : cB.peers[j]? = some n₁.peer := by
    rw [getElem?_peers, hj]
    rfl
  have hp : n₁.peer ∈ cB.peers := List.mem_of_getElem? hpj
  have hro : n₁.self.OnWire := hw n₁.peer hp hin
  obtain ⟨oid, hown⟩ := Ring.exists_firstFrom (List.ne_nil_of_mem (mem_ringIds hp hin))
    (RingId.hash term)
  obtain ⟨owner, reqs, srcR, c₄, hoid, howner, -, hreqs, hc₄, hq₄, hseen₄, hrun₄⟩ :=
    walk_answers hr hn hw hnext hpj hin hown _ c₃ n₁.peer hc₃ hp hin rfl
      (by rw [List.nil_append]; exact hq₃)
  rw [foundSuccessor_lookup] at hrun₄
  obtain ⟨m₄, hm₄, hm₄n⟩ := member_of_view hc₄ hj
  have hsearch : m₄.search = n₁.search := by
    have h := congrArg Node.search hm₄n
    exact h
  have hself : m₄.self = n₁.self := by
    have h := congrArg Node.self hm₄n
    exact h
  have hring₄ : SameRing c₄ cB := sameRing_of_uncounted hc₄
  have hopen : c₄.linkOpen m₄.self.addr = true := by
    apply linkOpen_of_handlerOf (j := j)
    rw [hring₄.handlerOf, hself]
    exact hn.handler j n₁.peer hpj hin
  have hsends := @lookupResolved_fetch_sends (c₄.startTurn m₄) owner (RingId.hash term) tx
    ⟨tx, ⟨.fetch orig rest acc x, term, RingId.hash term⟩, at_⟩ orig x rest acc
    (by show m₄.search.lookups.peek tx = _; rw [hsearch]; exact hpeek) rfl hb hopen
  obtain ⟨c₅, hturn₅, hc₅, hseen₅, hq₅⟩ := turn_sends hm₄ hsends
  have howire : owner.OnWire := by
    obtain ⟨p', hp'f, rfl⟩ := List.mem_map.1 howner
    obtain ⟨hp', hp'in⟩ := List.mem_filter.1 hp'f
    exact hw p' hp' hp'in
  refine ⟨Ring.arcCount cB.ringIds n₁.peer.self.id oid + 1, owner,
    reqs ++ [⟨⟨srcR, n₁.self.addr, Message.bytes
      ⟨tx, .findSuccessorRsp owner (RingId.hash term) lookupIndex⟩⟩, false⟩], ?_, howner,
    hoid ▸ hown, ?_, ?_, ?_⟩
  · rw [hrun₄, hturn₅]
    exact hc₅.trans (settled_of_uncounted hc₄)
  · rw [hrun₄, hturn₅, hq₅, hq₄, hself]
    rfl
  · rw [hrun₄, hturn₅, hseen₅, hseen₄]
    simp [Node.peer]
  · intro e he
    rcases List.mem_append.1 he with he | he
    · rw [Datagram.kind?_of_data (hreqs e he).2 (NodeRef.Exact.of_onWire hro)]
      simp [Body.kind]
    · rw [List.mem_singleton.1 he,
        Datagram.kind?_of_data
          (m := ⟨tx, .findSuccessorRsp owner (RingId.hash term) lookupIndex⟩) rfl
          (NodeRef.Exact.of_onWire howire)]
      simp [Body.kind]

/-! ### Hops of a search -/

section Hops

variable {c : Cluster} (hc : c.Searchable) {next : Cluster → Cluster}
  (hnext : DeliversLast [] next)
include hc hnext

theorem fetch_delivered {c' : Cluster} (hv : c'.view Node.unasked = c.view Node.unasked)
    {p : Peer} (hp : p ∈ c.peers) (hpin : p.ring.inRing = true) {src : Address}
    (hsrc : src ∉ c.cut) {x orig : UInt32} {key : Bytes} {rem acc : List Bytes}
    (hq : c'.queue.toList = [⟨src, p.self.addr, Message.bytes ⟨x, .fetchReq orig key rem acc⟩⟩])
    (hkey : key ≠ [] → Ring.FirstFrom c.ringIds (RingId.hash key) p.self.id) :
    ∃ (j : Nat) (n m : Node) (c'' : Cluster), c.members[j]? = some n ∧ n.ring.inRing = true ∧
      c''.members[j]? = some m ∧ m.unasked = n.unasked ∧ m.peer = p ∧
      c''.linkOpen m.self.addr = true ∧ (∀ keep, c''.view keep = c'.view keep) ∧
      c''.queue.toList = [] ∧
      c''.seen = c'.seen.push
        ⟨⟨src, p.self.addr, Message.bytes ⟨x, .fetchReq orig key rem acc⟩⟩, false⟩ ∧
      next c' =
        (c''.turn j (Node.receive src (Message.bytes ⟨x, .fetchReq orig key rem acc⟩))).2 ∧
      fetchStep m.search.store.postings key rem acc = fetchStep c.stored key rem acc := by
  obtain ⟨j, n, m, c'', hnj, hnp, hm, hmn, hopen, hview, hq'', hseen, hdel⟩ :=
    deliver_to_member hc.reaches hnext hv hp hpin hsrc rfl hq
  have hnself : n.self = p.self := congrArg Peer.self hnp
  have hnring : n.ring = p.ring := congrArg Peer.ring hnp
  have hnin : n.ring.inRing = true := by
    rw [hnring]
    exact hpin
  have hmp : m.peer = p := (congrArg Node.peer hmn).trans hnp
  refine ⟨j, n, m, c'', hnj, hnin, hm, hmn, hmp, hopen, hview, hq'', hseen, hdel, ?_⟩
  exact fetchStep_member hc hnj hnin hmn (by rw [hnself]; exact hkey) rem acc

theorem hop_answers {c' : Cluster} (hv : c'.view Node.unasked = c.view Node.unasked)
    {p : Peer} (hp : p ∈ c.peers) (hpin : p.ring.inRing = true) {src : Address}
    (hsrc : src ∉ c.cut) {x orig : UInt32} {key : Bytes} {rem acc docs : List Bytes}
    (hq : c'.queue.toList = [⟨src, p.self.addr, Message.bytes ⟨x, .fetchReq orig key rem acc⟩⟩])
    (hb : Body.Exact (.fetchReq orig key rem acc))
    (hkey : key ≠ [] → Ring.FirstFrom c.ringIds (RingId.hash key) p.self.id)
    (hstep : fetchStep c.stored key rem acc = .answer docs) (hdocs : Codec.ExactSet docs)
    {k : Nat} {o : Node} (hk : c.members[k]? = some o) (hoin : o.ring.inRing = true)
    (horig : o.self.num = orig) :
    (next c').settled = c'.settled ∧
      (next c').queue.toList = [⟨p.self.addr, o.self.addr, Message.bytes ⟨x, .fetchRsp docs⟩⟩] ∧
      (next c').seen.toList = c'.seen.toList ++
        [⟨⟨src, p.self.addr, Message.bytes ⟨x, .fetchReq orig key rem acc⟩⟩, false⟩] := by
  obtain ⟨j, n, m, c'', hnj, hnin, hm, hmn, hmp, hopen, hview, hq'', hseen, hdel, hstep'⟩ :=
    fetch_delivered hc hnext hv hp hpin hsrc hq hkey
  have hself : m.self = p.self := congrArg Peer.self hmp
  have hdir : m.directory.resolve orig = .ok o.self.addr := by
    have hdir' : m.directory = n.directory := by
      have h := congrArg Node.directory hmn
      exact h
    rw [hdir', ← horig]
    exact hc.directory j n k o hnj hk hnin hoin
  have hsends := @receive_fetch_answers Node.settled forgets_settled (c''.startTurn m) src x orig
    key rem acc docs o.self.addr hb (hstep'.trans hstep) hdir hdocs hopen
  obtain ⟨c₂, hturn, hc₂, hseen₂, hq₂⟩ := turn_sends hm hsends
  rw [hdel, hturn]
  refine ⟨hc₂.trans (hview _), ?_, ?_⟩
  · rw [hq₂, hq'', hself]
    rfl
  · rw [hseen₂, hseen]
    simp

/-- A fetch the member carries on: once delivered, the member looks up the owner of the
next term, and when the lookup's walk is over, the fetch for that term, sent to its owner, is
the only datagram queued. Besides the fetch, only the lookup's requests and its answer were
delivered, and nothing a search leaves settled has changed. -/
theorem hop_carries {c' : Cluster} (hv : c'.view Node.unasked = c.view Node.unasked)
    {p : Peer} (hp : p ∈ c.peers) (hpin : p.ring.inRing = true) {src : Address}
    (hsrc : src ∉ c.cut) {x orig : UInt32} {key : Bytes} {rem acc : List Bytes}
    (hq : c'.queue.toList = [⟨src, p.self.addr, Message.bytes ⟨x, .fetchReq orig key rem acc⟩⟩])
    (hb : Body.Exact (.fetchReq orig key rem acc))
    (hkey : key ≠ [] → Ring.FirstFrom c.ringIds (RingId.hash key) p.self.id)
    {term : Bytes} {rest acc' : List Bytes}
    (hstep : fetchStep c.stored key rem acc = .carry term rest acc')
    (hb' : Body.Exact (.fetchReq orig term rest acc')) :
    ∃ (k : Nat) (p' : Peer) (log : List Delivery),
      (next^[k] c').settled = c'.settled ∧ p' ∈ c.peers ∧ p'.ring.inRing = true ∧
      Ring.FirstFrom c.ringIds (RingId.hash term) p'.self.id ∧
      (next^[k] c').queue.toList =
        [⟨p.self.addr, p'.self.addr, Message.bytes ⟨x, .fetchReq orig term rest acc'⟩⟩] ∧
      (next^[k] c').seen.toList = c'.seen.toList ++
        ⟨⟨src, p.self.addr, Message.bytes ⟨x, .fetchReq orig key rem acc⟩⟩, false⟩ :: log ∧
      ∀ e ∈ log, e.datagram.kind? ≠ some .fetchReq := by
  obtain ⟨j, -, m, c'', -, -, hm, -, hmp, hopen, hview, hq'', hseen, hdel, hstep'⟩ :=
    fetch_delivered hc hnext hv hp hpin hsrc hq hkey
  have hmself : m.self = p.self := congrArg Peer.self hmp
  have hmring : m.ring = p.ring := congrArg Peer.ring hmp
  have hmin : m.ring.inRing = true := by rw [hmring]; exact hpin
  obtain ⟨s, hs, hsin, hsself, -⟩ := hc.routes.successor p hp hpin
  have hsucc : m.ring.successor.OnWire := by
    rw [hmring, ← hsself]
    exact hc.onWire s hs hsin
  have hro : m.self.OnWire := by
    rw [hmself]
    exact hc.onWire p hp hpin
  have hsends := @receive_fetch_carries (c''.startTurn m) src x orig key rem acc term rest acc' hb
    (hstep'.trans hstep) hmin hopen hro hsucc
  obtain ⟨c₃, hturn₃, hview₃, hseen₃, hq₃⟩ := turn_sendsVia hm hsends
  let n₁ := m.startLookup c''.clock ⟨.fetch orig rest acc' x, term, RingId.hash term⟩
  have hv'' : c''.view Node.unasked = c.view Node.unasked := (hview _).trans hv
  have hringB : SameRing (c''.setMember j n₁) c :=
    (@sameRing_setMember c'' j m n₁ hm rfl).trans (sameRing_of_view forgets_unasked hv'')
  have hjB : (c''.setMember j n₁).members[j]? = some n₁ := getElem?_modify_self hm n₁
  have hqB : c₃.queue.toList =
      [n₁.peer.relay (m.lastTx + 1) n₁.self (RingId.hash term) lookupIndex] := by
    rw [hq₃, hq'', List.nil_append, List.map_singleton]
    exact congrArg (fun d => [d]) (Peer.relay_eq m.peer (m.lastTx + 1) m.self _ _)
  obtain ⟨k, owner, log, hsettled, howner, hown, hqk, hseenk, hlog⟩ :=
    lookup_fetches (hc.routes.congr hringB) (hc.reaches.congr hringB) (hc.onWire.congr hringB)
      hnext hjB hmin (Tracker.peek_add _ _ _ _) hb' hview₃ hqB
  obtain ⟨p', hp'f, rfl⟩ := List.mem_map.1 howner
  obtain ⟨hp', hp'in⟩ := List.mem_filter.1 hp'f
  have hrun : next^[k + 1] c' = next^[k] c₃ := by
    rw [Function.iterate_succ_apply, hdel, hturn₃]
  refine ⟨k + 1, p', log, ?_, hringB.peers ▸ hp', hp'in, hringB.ringIds ▸ hown, ?_, ?_, hlog⟩
  · rw [hrun, hsettled]
    exact (@view_setMember Node.settled c'' j m n₁ hm rfl).trans (hview _)
  · have hn₁ : n₁.self = p.self := hmself
    rw [hrun, hqk, hn₁]
  · rw [hrun, hseenk, hseen₃, hseen]
    simp

/-- From a fetch for `key` queued alone to the key's owner, the search goes on owner by
owner until a member answers the originator, member `i`: the documents it answers with and
the number of fetches delivered on the way are what `conjoin` computes over what is stored.
The induction is on the terms left after `key`; each hop that carries the search on
visits the next term's owner. -/
theorem hops_answer {i : Nat} {o : Node} (hi : c.members[i]? = some o)
    (hoin : o.ring.inRing = true) (x : UInt32) :
    ∀ (rem : List Bytes) (key : Bytes) (acc : List Bytes) (c' : Cluster) (p : Peer) (src : Address),
      ((key :: rem).Pairwise fun a b => Bytes.lexLt a b = true) → (key :: rem).length < 2 ^ 32 →
      (∀ s ∈ key :: rem, Codec.Fits s ∧ s ≠ []) → Codec.ExactSet acc →
      c'.view Node.unasked = c.view Node.unasked → p ∈ c.peers → p.ring.inRing = true →
      src ∉ c.cut → Ring.FirstFrom c.ringIds (RingId.hash key) p.self.id →
      c'.queue.toList = [⟨src, p.self.addr, Message.bytes ⟨x, .fetchReq o.self.num key rem acc⟩⟩] →
      ∃ (k : Nat) (src' : Address) (log : List Delivery),
        (next^[k] c').settled = c'.settled ∧ src' ∉ c.cut ∧
        (next^[k] c').queue.toList = [⟨src', o.self.addr,
          Message.bytes ⟨x, .fetchRsp (Search.conjoin c.stored acc (key :: rem)).2⟩⟩] ∧
        (next^[k] c').seen.toList = c'.seen.toList ++ log ∧
        log.countP (·.datagram.kind? = some .fetchReq) =
          (Search.conjoin c.stored acc (key :: rem)).1 := by
  intro rem
  induction rem with
  | nil =>
    intro key acc c' p src hs hlen hfit hacc hv hp hpin hsrc hown hq
    have hkey : key ≠ [] := (hfit key List.mem_cons_self).2
    have hb : Body.Exact (.fetchReq o.self.num key [] acc) :=
      ⟨(hfit key List.mem_cons_self).1, Codec.exactSet_nil, hacc⟩
    obtain ⟨hset, hq₁, hseen₁⟩ := hop_answers hc hnext hv hp hpin hsrc hq hb (fun _ => hown)
      (fetchStep_last c.stored hkey acc) (narrow_onWire hc.storedOnWire key acc) hi hoin rfl
    refine ⟨1, p.self.addr, _, hset, hc.reaches.uncut p hp hpin, ?_, hseen₁, ?_⟩
    · rw [conjoin_last]
      exact hq₁
    · rw [conjoin_last, List.countP_singleton, Datagram.kind?_of_data rfl hb]
      rfl
  | cons w rest ih =>
    intro key acc c' p src hs hlen hfit hacc hv hp hpin hsrc hown hq
    have hkey : key ≠ [] := (hfit key List.mem_cons_self).2
    have hs' : (w :: rest).Pairwise fun a b => Bytes.lexLt a b = true := (List.pairwise_cons.1 hs).2
    have hfit' : ∀ s ∈ w :: rest, Codec.Fits s ∧ s ≠ [] :=
      fun s hm => hfit s (List.mem_cons_of_mem _ hm)
    have hlen' : (w :: rest).length < 2 ^ 32 := by simp at hlen ⊢; omega
    have hb : Body.Exact (.fetchReq o.self.num key (w :: rest) acc) :=
      ⟨(hfit key List.mem_cons_self).1,
        exactSet_of_sorted hs' hlen' fun s hm => (hfit' s hm).1, hacc⟩
    have hstep := fetchStep_cons c.stored hkey hs' acc
    rw [conjoin_cons]
    by_cases hr : (narrow c.stored key acc).toList = []
    · -- nothing matched this term: the owner answers with no documents
      rw [if_pos hr] at hstep ⊢
      obtain ⟨hset, hq₁, hseen₁⟩ := hop_answers hc hnext hv hp hpin hsrc hq hb (fun _ => hown)
        hstep Codec.exactSet_nil hi hoin rfl
      refine ⟨1, p.self.addr, _, hset, hc.reaches.uncut p hp hpin, hq₁, hseen₁, ?_⟩
      rw [List.countP_singleton, Datagram.kind?_of_data rfl hb]
      rfl
    · -- the owner carries the search on to the owner of the next term
      rw [if_neg hr] at hstep ⊢
      have hacc' := narrow_onWire hc.storedOnWire key acc
      have hb' : Body.Exact (.fetchReq o.self.num w rest (narrow c.stored key acc).toList) :=
        ⟨(hfit' w List.mem_cons_self).1,
          exactSet_of_sorted (List.pairwise_cons.1 hs').2 (by simp at hlen'; omega)
            (fun s hm => (hfit' s (List.mem_cons_of_mem _ hm)).1), hacc'⟩
      obtain ⟨k₁, p', log₁, hset₁, hp', hp'in, hown', hq₁, hseen₁, hlog₁⟩ :=
        hop_carries hc hnext hv hp hpin hsrc hq hb (fun _ => hown) hstep hb'
      have hv₁ : (next^[k₁] c').view Node.unasked = c.view Node.unasked :=
        (unasked_of_settled hset₁).trans hv
      obtain ⟨k₂, src', log₂, hset₂, hsrc₂, hq₂, hseen₂, hcount₂⟩ :=
        ih w (narrow c.stored key acc).toList (next^[k₁] c') p' p.self.addr hs' hlen' hfit' hacc'
          hv₁ hp' hp'in (hc.reaches.uncut p hp hpin) hown' hq₁
      refine ⟨k₂ + k₁, src', (⟨⟨src, p.self.addr,
        Message.bytes ⟨x, .fetchReq o.self.num key (w :: rest) acc⟩⟩, false⟩ :: log₁) ++ log₂,
        ?_, hsrc₂, ?_, ?_, ?_⟩
      · rw [Function.iterate_add_apply, hset₂, hset₁]
      · rw [Function.iterate_add_apply, hq₂]
      · rw [Function.iterate_add_apply, hseen₂, hseen₁, List.append_assoc]
      · rw [List.countP_append, List.countP_cons, hcount₂, List.countP_eq_zero.2
          (fun e he => by simpa using hlog₁ e he), Datagram.kind?_of_data rfl hb]
        simp [Body.kind, Nat.add_comm]

/-- The fetch a query sends its entry member, queued alone: the search goes from owner to
owner until the answer to the originator is the only datagram queued. The documents are
those `conjoin` finds starting from none, and one fetch more than the owners `conjoin`
visits is delivered: the entry member's. -/
theorem fetches_answer {c' : Cluster} (hv : c'.view Node.unasked = c.view Node.unasked)
    {i : Nat} {o : Node} (hi : c.members[i]? = some o) (hoin : o.ring.inRing = true)
    {p : Peer} (hp : p ∈ c.peers) (hpin : p.ring.inRing = true) (x : UInt32) {Q : List Bytes}
    (hs : Q.Pairwise fun a b => Bytes.lexLt a b = true) (hlen : Q.length < 2 ^ 32)
    (hfit : ∀ s ∈ Q, Codec.Fits s ∧ s ≠ [])
    (hq : c'.queue.toList =
      [⟨o.self.addr, p.self.addr, Message.bytes ⟨x, .fetchReq o.self.num [] Q []⟩⟩]) :
    ∃ (k : Nat) (src : Address) (log : List Delivery),
      (next^[k] c').settled = c'.settled ∧ src ∉ c.cut ∧
      (next^[k] c').queue.toList =
        [⟨src, o.self.addr, Message.bytes ⟨x, .fetchRsp (conjoin c.stored [] Q).2⟩⟩] ∧
      (next^[k] c').seen.toList = c'.seen.toList ++ log ∧
      log.countP (·.datagram.kind? = some .fetchReq) = (conjoin c.stored [] Q).1 + 1 := by
  have hopeer : o.peer ∈ c.peers := List.mem_of_getElem? (by rw [getElem?_peers, hi]; rfl)
  have hsrc : o.self.addr ∉ c.cut := hc.reaches.uncut o.peer hopeer hoin
  have hb : Body.Exact (.fetchReq o.self.num [] Q []) :=
    ⟨by simp [Codec.Fits], exactSet_of_sorted hs hlen fun s hm => (hfit s hm).1, Codec.exactSet_nil⟩
  cases Q with
  | nil =>
    obtain ⟨hset, hq₁, hseen₁⟩ := hop_answers hc hnext hv hp hpin hsrc hq hb (fun h => absurd rfl h)
      (fetchStep_entry_nil c.stored []) Codec.exactSet_nil hi hoin rfl
    refine ⟨1, p.self.addr, _, hset, hc.reaches.uncut p hp hpin, hq₁, hseen₁, ?_⟩
    rw [List.countP_singleton, Datagram.kind?_of_data rfl hb]
    rfl
  | cons w rest =>
    have hs' : rest.Pairwise fun a b => Bytes.lexLt a b = true := (List.pairwise_cons.1 hs).2
    have hb' : Body.Exact (.fetchReq o.self.num w rest []) :=
      ⟨(hfit w List.mem_cons_self).1,
        exactSet_of_sorted hs' (by simp at hlen; omega)
          (fun s hm => (hfit s (List.mem_cons_of_mem _ hm)).1),
        Codec.exactSet_nil⟩
    obtain ⟨k₁, p', log₁, hset₁, hp', hp'in, hown', hq₁, hseen₁, hlog₁⟩ :=
      hop_carries hc hnext hv hp hpin hsrc hq hb (fun h => absurd rfl h)
        (fetchStep_entry_cons c.stored hs []) hb'
    have hv₁ : (next^[k₁] c').view Node.unasked = c.view Node.unasked :=
      (unasked_of_settled hset₁).trans hv
    obtain ⟨k₂, src', log₂, hset₂, hsrc₂, hq₂, hseen₂, hcount₂⟩ :=
      hops_answer hc hnext hi hoin x rest w [] (next^[k₁] c') p' p.self.addr hs hlen hfit
        Codec.exactSet_nil hv₁ hp' hp'in (hc.reaches.uncut p hp hpin) hown' hq₁
    refine ⟨k₂ + k₁, src', (⟨⟨o.self.addr, p.self.addr,
      Message.bytes ⟨x, .fetchReq o.self.num [] (w :: rest) []⟩⟩, false⟩ :: log₁) ++ log₂,
      ?_, hsrc₂, ?_, ?_, ?_⟩
    · rw [Function.iterate_add_apply, hset₂, hset₁]
    · rw [Function.iterate_add_apply, hq₂]
    · rw [Function.iterate_add_apply, hseen₂, hseen₁, List.append_assoc]
    · rw [List.countP_append, List.countP_cons, hcount₂, List.countP_eq_zero.2
        (fun e he => by simpa using hlog₁ e he), Datagram.kind?_of_data rfl hb]
      simp [Body.kind, Nat.add_comm]

/-- The answer to a search in flight at member `i`, queued alone: once delivered, the member
reports the search's result, and nothing else is reported, queued or changed beyond what a
search changes. -/
theorem answer_reported {c' : Cluster} (hv : c'.view Node.unasked = c.view Node.unasked)
    {i : Nat} {o m : Node} (hi : c.members[i]? = some o) (hoin : o.ring.inRing = true)
    (hobs : o.reportsEvents = true) (hm : c'.members[i]? = some m) {x : UInt32}
    {e : Pending PendingSearch} (hpeek : m.search.searches.peek x = some e) {src : Address}
    (hsrc : src ∉ c.cut) {docs : List Bytes} (hdocs : Codec.ExactSet docs)
    (hq : c'.queue.toList = [⟨src, o.self.addr, Message.bytes ⟨x, .fetchRsp docs⟩⟩]) :
    (next c').queue.toList = [] ∧
      (next c').events = c'.events.push (searchResult o c'.clock x e.value.terms docs) ∧
      (next c').seen.toList = c'.seen.toList ++
        [⟨⟨src, o.self.addr, Message.bytes ⟨x, .fetchRsp docs⟩⟩, false⟩] ∧
      (next c').members.map Node.unasked = c'.members.map Node.unasked := by
  have hopeer : o.peer ∈ c.peers := List.mem_of_getElem? (by rw [getElem?_peers, hi]; rfl)
  obtain ⟨j, n, m', c'', hnj, hnp, hm', hmn, hopen, hview, hq'', hseen, hdel⟩ :=
    deliver_to_member hc.reaches hnext hv hopeer hoin hsrc rfl hq
  dsimp only at hdel
  have hji : j = i := hc.routes.index_unique (p := n.peer) (q := o.peer)
    (by rw [getElem?_peers, hnj]; rfl) (by rw [getElem?_peers, hi]; rfl)
    (by rw [hnp]; exact hoin) hoin (by rw [hnp])
  subst hji
  obtain ⟨m₁, hm₁, hm₁m⟩ := member_of_view (hview Node.settled) hm
  rw [hm'] at hm₁
  cases hm₁
  rw [hi] at hnj
  cases hnj
  have hsearches : m'.search.searches = m.search.searches := by
    have h := congrArg (fun n : Node => n.search.searches) hm₁m
    exact h
  have hobs' : m'.reportsEvents = true := by
    have h := congrArg Node.reportsEvents hmn
    exact h.trans hobs
  have hself : m'.self = o.self := by
    have h := congrArg Node.self hmn
    exact h
  have hpeek' : (c''.startTurn m').node.search.searches.peek x = some e := by
    show m'.search.searches.peek x = some e
    rw [hsearches]
    exact hpeek
  obtain ⟨n', hrun, hn'⟩ := @receive_fetchReply _ src _ _ _ hdocs hpeek' hobs'
  have hevents : c''.events = c'.events := by
    have h := congrArg Cluster.events (hview Node.unasked)
    exact h
  have hclock : c''.clock = c'.clock := by
    have h := congrArg Cluster.clock (hview Node.unasked)
    exact h
  have hmembers : c''.members.map Node.unasked = c'.members.map Node.unasked := by
    have h := congrArg Cluster.members (hview Node.unasked)
    exact h
  have hresult : searchResult m' c''.clock x e.value.terms docs =
      searchResult o c'.clock x e.value.terms docs := by
    rw [hclock]
    unfold searchResult
    rw [hself]
  rw [hdel, turn_eq hm', hrun]
  refine ⟨?_, ?_, ?_, ?_⟩
  · simpa [startTurn] using hq''
  · simp [startTurn, hevents, hresult]
  · simp [hseen]
  · exact (members_modify_map Node.unasked hm' hn').trans hmembers

end Hops

end ChordSearch.Cluster
