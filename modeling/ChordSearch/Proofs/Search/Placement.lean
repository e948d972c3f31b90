import ChordSearch.Proofs.Search.Intersection

/-! # Where a search finds its documents

`Cluster.stored` is what is stored under a term anywhere in the cluster. A search runs in a
cluster where that is all at one place (`Cluster.Searchable`): the ring routes and reaches
its members and the wire carries them, every document is stored at its term's owner only
and goes on the wire, and the ring members share one directory. There the owner of a term
holds everything stored under it (`stored_eq_owner`), so a member owning a fetch's key
decides as `fetchStep` over `stored` (`fetchStep_member`), and the documents it narrows to
go on the wire (`narrow_onWire`, `conjoin_onWire`).
-/

namespace ChordSearch.Cluster

open Search

/-- The documents stored under `t` anywhere in the cluster. -/
def stored (c : Cluster) (t : Bytes) : DocSet :=
  DocSet.ofList (c.members.toList.flatMap fun n => (n.search.store.postings t).toList)

theorem mem_stored {c : Cluster} {t d : Bytes} :
    d ∈ (c.stored t).toList ↔
      ∃ (j : Nat) (n : Node), c.members[j]? = some n ∧ d ∈ (n.search.store.postings t).toList := by
  simp only [stored, DocSet.mem_ofList, List.mem_flatMap, Array.mem_toList_iff]
  constructor
  · rintro ⟨n, hn, hd⟩
    obtain ⟨j, hj⟩ := Array.mem_iff_getElem?.1 hn
    exact ⟨j, n, hj, hd⟩
  · rintro ⟨j, n, hj, hd⟩
    exact ⟨n, Array.mem_of_getElem? hj, hd⟩

/-- Every document is stored under its term only at the term's owner, the ring member first
clockwise from the term's key. -/
def StoredAtOwner (c : Cluster) : Prop :=
  ∀ (j : Nat) (n : Node), c.members[j]? = some n → ∀ t d, d ∈ (n.search.store.postings t).toList →
    n.ring.inRing = true ∧ Ring.FirstFrom c.ringIds (RingId.hash t) n.self.id

/-- The wire carries what is stored under every term: fewer than `2^32` documents, each of
at most 65535 bytes. -/
def StoredOnWire (c : Cluster) : Prop :=
  ∀ t, (c.stored t).size < 2 ^ 32 ∧ ∀ d ∈ (c.stored t).toList, Codec.Fits d

/-- The ring members share a directory: each gives every ring member's number that
member's address. -/
def SharedDirectory (c : Cluster) : Prop :=
  ∀ (j : Nat) (n : Node) (k : Nat) (m : Node), c.members[j]? = some n → c.members[k]? = some m →
    n.ring.inRing = true → m.ring.inRing = true → n.directory.resolve m.self.num = .ok m.self.addr

/-- A cluster a search can run in: a ring that routes, reaches and carries its members,
with every document stored at its term's owner and on the wire, and one directory. -/
structure Searchable (c : Cluster) : Prop where
  routes : c.Routes
  reaches : c.Reaches
  onWire : c.MembersOnWire
  stored : c.StoredAtOwner
  storedOnWire : c.StoredOnWire
  directory : c.SharedDirectory

theorem Routes.index_unique {c : Cluster} (hr : c.Routes) {a b : Nat} {p q : Peer}
    (ha : c.peers[a]? = some p) (hb : c.peers[b]? = some q) (hp : p.ring.inRing = true)
    (hq : q.ring.inRing = true) (hid : p.self.id = q.self.id) : a = b := by
  have hpw := hr.nodup
  rw [ringIds, ringMembers, List.map_map, List.Nodup, List.pairwise_map, List.pairwise_filter]
    at hpw
  obtain ⟨ha', rfl⟩ := List.getElem?_eq_some_iff.1 ha
  obtain ⟨hb', rfl⟩ := List.getElem?_eq_some_iff.1 hb
  by_contra hne
  rcases Nat.lt_or_gt_of_ne hne with hab | hab
  · exact List.pairwise_iff_getElem.1 hpw a b ha' hb' hab hp hq hid
  · exact List.pairwise_iff_getElem.1 hpw b a hb' ha' hab hq hp hid.symm

theorem stored_eq_owner {c : Cluster} (hr : c.Routes) (hs : c.StoredAtOwner) {j : Nat} {n : Node}
    (hj : c.members[j]? = some n) (hin : n.ring.inRing = true) {t : Bytes}
    (hown : Ring.FirstFrom c.ringIds (RingId.hash t) n.self.id) :
    n.search.store.postings t = c.stored t := by
  apply DocSet.ext_mem
  intro d
  rw [mem_stored]
  refine ⟨fun hd => ⟨j, n, hj, hd⟩, ?_⟩
  rintro ⟨k, m, hk, hd⟩
  obtain ⟨hmin, hmown⟩ := hs k m hk t d hd
  have hkj : k = j := hr.index_unique (p := m.peer) (q := n.peer) (by rw [getElem?_peers, hk]; rfl)
    (by rw [getElem?_peers, hj]; rfl) hmin hin (hmown.unique hown)
  subst hkj
  rw [hk] at hj
  cases hj
  exact hd

theorem fetchStep_member {c : Cluster} (hc : c.Searchable) {j : Nat} {n m : Node}
    (hnj : c.members[j]? = some n) (hnin : n.ring.inRing = true) (hmn : m.unasked = n.unasked)
    {key : Bytes} (hkey : key ≠ [] → Ring.FirstFrom c.ringIds (RingId.hash key) n.self.id)
    (rem acc : List Bytes) :
    fetchStep m.search.store.postings key rem acc = fetchStep c.stored key rem acc := by
  apply fetchStep_congr
  intro hne
  have hstore : m.search.store = n.search.store := by
    have h := congrArg (fun n : Node => n.search.store) hmn
    exact h
  rw [hstore]
  exact stored_eq_owner hc.routes hc.stored hnj hnin (hkey hne)

theorem exactSet_of_sorted {xs : List Bytes} (hs : xs.Pairwise fun a b => Bytes.lexLt a b = true)
    (hlen : xs.length < 2 ^ 32) (hfit : ∀ s ∈ xs, Codec.Fits s) : Codec.ExactSet xs :=
  ⟨hs.imp fun h => by simp [Bytes.lexLt_asymm h], hlen, hfit⟩

theorem narrow_onWire {c : Cluster} (hso : c.StoredOnWire) (key : Bytes) (acc : List Bytes) :
    Codec.ExactSet (narrow c.stored key acc).toList := by
  have hsub : (narrow c.stored key acc).toList.Sublist (c.stored key).toList := by
    unfold narrow
    split
    · exact List.Sublist.refl _
    · exact List.filter_sublist
  refine ⟨(narrow c.stored key acc).sorted.imp fun h => ?_, ?_, fun d hd => ?_⟩
  · simp [Bytes.lexLt_asymm h]
  · exact lt_of_le_of_lt hsub.length_le (hso key).1
  · exact (hso key).2 d (hsub.subset hd)

theorem conjoin_onWire {c : Cluster} (hso : c.StoredOnWire) (Q : List Bytes) :
    ∀ acc, Codec.ExactSet acc → Codec.ExactSet (conjoin c.stored acc Q).2 := by
  induction Q with
  | nil => exact fun _ h => h
  | cons key rem ih =>
    intro acc _
    cases rem with
    | nil =>
      rw [conjoin_last]
      exact narrow_onWire hso key acc
    | cons w rest =>
      rw [conjoin_cons]
      split
      · exact Codec.exactSet_nil
      · exact ih _ (narrow_onWire hso key acc)

end ChordSearch.Cluster
