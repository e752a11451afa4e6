import Livelock.Ascii
import Livelock.ClientReader

namespace Livelock.ReadBack

open Livelock.Lib Livelock.Shared Livelock.ClientReader Livelock.Ascii

mutual

/-- What Python can hash: no list, no dict, and no tuple with one in it. -/
def Hashes : Value → Prop
  | .list _ | .dict _ => False
  | .tuple items => HashesItems items
  | _ => True

def HashesItems : List Value → Prop
  | [] => True
  | v :: vs => Hashes v ∧ HashesItems vs

end

mutual

/-- A value that there is in Python: the keys of a `dict` can be hashed, and no
two of them are equal. -/
def Proper : Value → Prop
  | .list items | .tuple items => ProperItems items
  | .dict items => ProperPairs items
  | _ => True

def ProperItems : List Value → Prop
  | [] => True
  | v :: vs => Proper v ∧ ProperItems vs

def ProperPairs : List (Value × Value) → Prop
  | [] => True
  | (k, v) :: items =>
    Hashes k ∧ Proper v ∧ (∀ p ∈ items, sameKey k p.1 = false) ∧ ProperPairs items

end

def isTuple : Value → Bool
  | .tuple _ => true
  | _ => false

mutual

def NoTupleKey : Value → Prop
  | .list items | .tuple items => NoTupleKeyItems items
  | .dict items => NoTupleKeyPairs items
  | _ => True

def NoTupleKeyItems : List Value → Prop
  | [] => True
  | v :: vs => NoTupleKey v ∧ NoTupleKeyItems vs

def NoTupleKeyPairs : List (Value × Value) → Prop
  | [] => True
  | (k, v) :: items => isTuple k = false ∧ NoTupleKey v ∧ NoTupleKeyPairs items

end

variable {py : Builtins}

theorem packItems_cons {v : Value} {vs : List Value} {w : Bytes} (h : packItems py (v :: vs) = some w) :
    ∃ u u', packResp py v = some u ∧ packItems py vs = some u' ∧ w = u ++ u' := by
  rw [packItems] at h
  obtain ⟨u, hu, h⟩ := Option.bind_eq_some_iff.mp h
  obtain ⟨u', hu', h⟩ := Option.bind_eq_some_iff.mp h
  exact ⟨u, u', hu, hu', (Option.some_inj.mp h).symm⟩

theorem packPairs_cons {k v : Value} {items : List (Value × Value)} {w : Bytes}
    (h : packPairs py ((k, v) :: items) = some w) :
    k.isKey = true ∧ ∃ t u u', packResp py k = some t ∧ packResp py v = some u ∧
      packPairs py items = some u' ∧ w = t ++ u ++ u' := by
  rw [packPairs] at h
  split at h
  · next hkey =>
    obtain ⟨t, ht, h⟩ := Option.bind_eq_some_iff.mp h
    obtain ⟨u, hu, h⟩ := Option.bind_eq_some_iff.mp h
    obtain ⟨u', hu', h⟩ := Option.bind_eq_some_iff.mp h
    exact ⟨hkey, t, u, u', ht, hu, hu', (Option.some_inj.mp h).symm⟩
  · cases h

theorem key_scalar {k : Value} (hkey : k.isKey = true) (hhash : Hashes k) (htuple : isTuple k = false) :
    listed k = k ∧ hashable k = true ∧ Readable k := by
  cases k with
  | int n => exact ⟨rfl, rfl, trivial⟩
  | float x => exact ⟨rfl, rfl, trivial⟩
  | str s => exact ⟨rfl, rfl, trivial⟩
  | list items => exact hhash.elim
  | tuple items => cases htuple
  | none | bool | bytes | dict => cases hkey

mutual

theorem hashes_proper : ∀ v, Hashes v → Proper v ∧ NoTupleKey v
  | .none, _ => ⟨trivial, trivial⟩
  | .bool _, _ => ⟨trivial, trivial⟩
  | .int _, _ => ⟨trivial, trivial⟩
  | .float _, _ => ⟨trivial, trivial⟩
  | .str _, _ => ⟨trivial, trivial⟩
  | .bytes _, _ => ⟨trivial, trivial⟩
  | .tuple items, h => hashes_proper_items items h

theorem hashes_proper_items : ∀ vs, HashesItems vs → ProperItems vs ∧ NoTupleKeyItems vs
  | [], _ => ⟨trivial, trivial⟩
  | v :: vs, h => by
    obtain ⟨hv, hv'⟩ := hashes_proper v h.1
    obtain ⟨hvs, hvs'⟩ := hashes_proper_items vs h.2
    exact ⟨⟨hv, hvs⟩, hv', hvs'⟩

end

mutual

theorem readable : ∀ v w, packResp py v = some w → Proper v → NoTupleKey v → Readable v
  | .none, _, _, _, _ => trivial
  | .bool _, _, _, _, _ => trivial
  | .int _, _, _, _, _ => trivial
  | .float _, _, _, _, _ => trivial
  | .str _, _, _, _, _ => trivial
  | .bytes _, _, _, _, _ => trivial
  | .list items, _, hw, hp, ht => by
    obtain ⟨u, hu, -⟩ := Option.map_eq_some_iff.mp hw
    exact readable_items items u hu hp ht
  | .tuple items, _, hw, hp, ht => by
    obtain ⟨u, hu, -⟩ := Option.map_eq_some_iff.mp hw
    exact readable_items items u hu hp ht
  | .dict items, _, hw, hp, ht => by
    obtain ⟨u, hu, -⟩ := Option.map_eq_some_iff.mp hw
    exact readable_pairs items [] u hu hp (fun _ hm => by cases hm) ht

theorem readable_items : ∀ vs w, packItems py vs = some w → ProperItems vs → NoTupleKeyItems vs →
    ReadableItems vs
  | [], _, _, _, _ => trivial
  | v :: vs, _, hw, hp, ht => by
    obtain ⟨u, u', hu, hu', -⟩ := packItems_cons hw
    exact ⟨readable v u hu hp.1 ht.1, readable_items vs u' hu' hp.2 ht.2⟩

theorem readable_pairs : ∀ items r w, packPairs py items = some w → ProperPairs items →
    (∀ p ∈ r, ∀ q ∈ items, sameKey p.1 q.1 = false) → NoTupleKeyPairs items → ReadablePairs r items
  | [], _, _, _, _, _, _ => trivial
  | (k, v) :: items, r, _, hw, hp, hr, ht => by
    obtain ⟨hkey, t, u, u', -, hu, hu', -⟩ := packPairs_cons hw
    obtain ⟨hhash, hv, hnew, hitems⟩ := hp
    obtain ⟨hlisted, hhashable, hk⟩ := key_scalar hkey hhash ht.1
    have hrest : ∀ p ∈ r ++ [(k, listed v)], ∀ q ∈ items, sameKey p.1 q.1 = false := by
      intro p hpm q hq
      obtain hpm | hpm := List.mem_append.mp hpm
      · exact hr p hpm q (.tail _ hq)
      · rw [List.mem_singleton.mp hpm]
        exact hnew q hq
    have hitems' := readable_pairs items _ u' hu' hitems hrest ht.2.2
    refine ⟨hkey, ?_, hk, readable v u hu hv ht.2.1, ?_, ?_⟩
    · rw [hlisted]
      exact hhashable
    · rw [hlisted]
      exact fun p hpm => hr p hpm (k, v) (.head _)
    · rw [hlisted]
      exact hitems'

end

/-- What is packed for a value that the client fails on. -/
def Stuck (py : Builtins) (v : Value) : Prop :=
  ∃ c tail, packResp py v = some (c :: tail) ∧ c ∈ markers ∧
    ∀ fuel, tail.length ≤ fuel → Reader.Fails (receiveResp py fuel c) tail

theorem stuck_nested {v : Value} {c : UInt8} {n : Nat} {w : Bytes}
    (hpack : packResp py v = some (c :: (encode (toString n) ++ crlf ++ w))) (hc : c ∈ markers)
    (hread : ∀ fuel, w.length ≤ fuel →
      Reader.Fails (receiveResp py (fuel + 1) c) (encode (toString n) ++ crlf ++ w)) : Stuck py v := by
  refine ⟨c, _, hpack, hc, fun fuel hfuel => ?_⟩
  have hhead := length_head n
  rw [List.length_append] at hfuel
  obtain ⟨fuel, rfl⟩ : ∃ n, fuel = n + 1 := Nat.exists_eq_succ_of_ne_zero (by omega)
  exact hread fuel (by omega)

theorem stuck_array {v : Value} {items : List Value} {w : Bytes}
    (hpack : packResp py v = some ('*'.toUInt8 :: (encode (toString items.length) ++ crlf ++ w)))
    (hread : ∀ fuel, w.length ≤ fuel → Reader.Fails (readArray py fuel items.length) w) : Stuck py v :=
  stuck_nested hpack (by decide) fun fuel hfuel => (reads_int items.length).bind_fails (hread fuel hfuel).bind

/-- A tuple is read as a list, which is no key. -/
theorem tuple_key {k : Value} (r : List (Value × Value)) (v : Value) (htuple : isTuple k = true) :
    setItem r (listed k) v = none := by
  cases k with
  | tuple items => rfl
  | none | bool | int | float | str | bytes | list | dict => cases htuple

mutual

theorem stuck : ∀ v w, packResp py v = some w → Proper v → ¬ NoTupleKey v → Stuck py v
  | .none, _, _, _, ht => absurd trivial ht
  | .bool _, _, _, _, ht => absurd trivial ht
  | .int _, _, _, _, ht => absurd trivial ht
  | .float _, _, _, _, ht => absurd trivial ht
  | .str _, _, _, _, ht => absurd trivial ht
  | .bytes _, _, _, _, ht => absurd trivial ht
  | .list items, _, hw, hp, ht => by
    obtain ⟨u, hu, -⟩ := Option.map_eq_some_iff.mp hw
    exact stuck_array (packResp_list hu) (stuck_items items u hu hp ht)
  | .tuple items, _, hw, hp, ht => by
    obtain ⟨u, hu, -⟩ := Option.map_eq_some_iff.mp hw
    exact stuck_array (packResp_tuple hu) (stuck_items items u hu hp ht)
  | .dict items, _, hw, hp, ht => by
    obtain ⟨u, hu, -⟩ := Option.map_eq_some_iff.mp hw
    have hread := stuck_pairs items [] u hu hp ht
    exact stuck_nested (packResp_dict hu) (by decide) fun fuel hfuel =>
      (reads_int items.length).bind_fails (hread fuel hfuel).bind

theorem stuck_items : ∀ vs w, packItems py vs = some w → ProperItems vs → ¬ NoTupleKeyItems vs →
    ∀ fuel, w.length ≤ fuel → Reader.Fails (readArray py fuel vs.length) w
  | [], _, _, _, ht => absurd trivial ht
  | v :: vs, _, hw, hp, ht => by
    obtain ⟨u, u', hu, hu', rfl⟩ := packItems_cons hw
    intro fuel hfuel
    by_cases hv : NoTupleKey v
    · obtain ⟨c, tail, hpack, -, hread⟩ : Packs py v := packs v (readable v u hu hp.1 hv)
      obtain rfl := Option.some_inj.mp (hu.symm.trans hpack)
      rw [List.length_append, List.length_cons] at hfuel
      obtain ⟨fuel, rfl⟩ : ∃ n, fuel = n + 1 := Nat.exists_eq_succ_of_ne_zero (by omega)
      have hvs := stuck_items vs u' hu' hp.2 (fun h => ht ⟨hv, h⟩) fuel (by omega)
      rw [List.length_cons, readArray_succ]
      refine (Reader.reads_next c).bind_fails ?_
      exact (hread fuel (by omega)).bind_fails hvs.bind
    · obtain ⟨c, tail, hpack, -, hread⟩ := stuck v u hu hp.1 hv
      obtain rfl := Option.some_inj.mp (hu.symm.trans hpack)
      rw [List.length_append, List.length_cons] at hfuel
      obtain ⟨fuel, rfl⟩ : ∃ n, fuel = n + 1 := Nat.exists_eq_succ_of_ne_zero (by omega)
      rw [List.length_cons, readArray_succ]
      refine (Reader.reads_next c).bind_fails ?_
      exact ((hread fuel (by omega)).append u').bind

theorem stuck_pairs : ∀ items r w, packPairs py items = some w → ProperPairs items →
    ¬ NoTupleKeyPairs items → ∀ fuel, w.length ≤ fuel → Reader.Fails (readDict py fuel items.length r) w
  | [], _, _, _, _, ht => absurd trivial ht
  | (k, v) :: items, r, _, hw, hp, ht => by
    obtain ⟨hkey, t, u, u', htk, hu, hu', rfl⟩ := packPairs_cons hw
    obtain ⟨hhash, hv, -, hitems⟩ := hp
    intro fuel hfuel
    obtain ⟨hk, hk'⟩ := hashes_proper k hhash
    obtain ⟨c, tail, hpack, -, hreadk⟩ : Packs py k := packs k (readable k t htk hk hk')
    obtain rfl := Option.some_inj.mp (htk.symm.trans hpack)
    simp only [List.length_append, List.length_cons] at hfuel
    obtain ⟨fuel, rfl⟩ : ∃ n, fuel = n + 1 := Nat.exists_eq_succ_of_ne_zero (by omega)
    have hkread := hreadk fuel (by omega)
    rw [List.length_cons, readDict_succ, List.append_assoc]
    refine (Reader.reads_next c).bind_fails (hkread.bind_fails ?_)
    by_cases hnv : NoTupleKey v
    · obtain ⟨c', tail', hpack', -, hreadv⟩ : Packs py v := packs v (readable v u hu hv hnv)
      obtain rfl := Option.some_inj.mp (hu.symm.trans hpack')
      rw [List.length_cons] at hfuel
      refine (Reader.reads_next c').bind_fails ((hreadv fuel (by omega)).bind_fails ?_)
      by_cases htuple : isTuple k = true
      · exact (Reader.fails_ofOption (tuple_key r _ htuple) u').bind
      · have hscalar : isTuple k = false := Bool.eq_false_iff.mpr htuple
        obtain ⟨hlisted, hhashable, -⟩ := key_scalar hkey hhash hscalar
        have hset : setItem r (listed k) (listed v) = some (insertItem (listed k) (listed v) r) := by
          rw [setItem, hlisted, if_pos hhashable]
        have hrest : ¬ NoTupleKeyPairs items := fun h => ht ⟨hscalar, hnv, h⟩
        have hpairs := stuck_pairs items (insertItem (listed k) (listed v) r) u' hu' hitems hrest
        exact (Reader.reads_ofOption hset).bind_fails (hpairs fuel (by omega))
    · obtain ⟨c', tail', hpack', -, hreadv⟩ := stuck v u hu hv hnv
      obtain rfl := Option.some_inj.mp (hu.symm.trans hpack')
      rw [List.length_cons] at hfuel
      refine (Reader.reads_next c').bind_fails ?_
      exact ((hreadv fuel (by omega)).append u').bind

end

/-- A value that there is in Python, and that `pack_resp` does not raise on, is
read back with its tuples as lists if and only if no `dict` in it has a tuple
as a key: a list in the place of that key cannot be hashed. -/
theorem client_reads_back {v : Value} {w : Bytes} (hproper : Proper v) (hpack : packResp py v = some w) :
    (∀ rest, readResponse py (w ++ rest) = some (.value (listed v), rest)) ↔ NoTupleKey v := by
  constructor
  · intro hread
    by_contra hkey
    obtain ⟨c, tail, hstuck, hc, hfails⟩ := stuck v w hpack hproper hkey
    obtain rfl := Option.some_inj.mp (hpack.symm.trans hstuck)
    have hnone : readResponse py (c :: tail ++ []) = none := by
      rw [readResponse, List.cons_append, Reader.bind_next, if_pos hc, Reader.bind_get]
      exact Reader.bind_none (hfails _ (by simp) [])
    rw [hread] at hnone
    cases hnone
  · intro hkey
    obtain ⟨u, hu, hreads⟩ := reads_value (readable v w hpack hproper hkey)
    obtain rfl := Option.some_inj.mp (hpack.symm.trans hu)
    exact hreads

theorem client_reads_back_named :
    (∀ rest, readResponse ascii (encode "%1\r\n$1\r\nl\r\n*2\r\n:7\r\n$-1\r\n" ++ rest) =
      some (.value (listed (.dict [(.str "l", .tuple [.int 7, .none])])), rest)) ↔
      NoTupleKey (.dict [(.str "l", .tuple [.int 7, .none])]) := by
  have hproper : Proper (.dict [(.str "l", .tuple [.int 7, .none])]) := by
    refine ⟨trivial, ⟨trivial, trivial, trivial⟩, ?_, trivial⟩
    intro p hp
    cases hp
  exact client_reads_back hproper (by decide +kernel)

/-- A `dict` with a tuple as its key is packed, and the client fails on it. -/
theorem tuple_key_not_read : ∃ w,
    packResp ascii (.dict [(.tuple [.int 1, .int 2], .int 3)]) = some w ∧
      Proper (.dict [(.tuple [.int 1, .int 2], .int 3)]) ∧
      ¬ ∀ rest, readResponse ascii (w ++ rest) =
        some (.value (listed (.dict [(.tuple [.int 1, .int 2], .int 3)])), rest) := by
  have hfails : ((readResponse ascii (encode "%1\r\n*2\r\n:1\r\n:2\r\n:3\r\n")).isNone) = true := by
    decide +kernel
  have hproper : Proper (.dict [(.tuple [.int 1, .int 2], .int 3)]) := by
    refine ⟨⟨trivial, trivial, trivial⟩, trivial, ?_, trivial⟩
    intro p hp
    cases hp
  refine ⟨encode "%1\r\n*2\r\n:1\r\n:2\r\n:3\r\n", by decide +kernel, hproper, fun hread => ?_⟩
  have hnil := hread []
  rw [List.append_nil] at hnil
  rw [hnil] at hfails
  cases hfails

end Livelock.ReadBack
