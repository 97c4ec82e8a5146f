import Canon.IndexerStore
import Canon.SqliteScans

/-!
# Scanning the balances

The key of a balance cell has a fixed width and its numbers are big-endian, so the byte
order of the keys is the order of actors and resources.
-/

namespace Canon

namespace Indexing

open Sqlite

def balanceKeyLen : ℕ := 18

def parseBalanceKey (key : Bytes) : Option (ActorId × ResourceId) :=
  if key.length ≠ balanceKeyLen then none
  else if key.take 2 ≠ balanceKeyPrefix then none
  else some (UInt64.ofNat (beValue ((key.drop 2).take 8)),
    UInt64.ofNat (beValue ((key.drop 10).take 8)))

/-- The loop of `scan_all`, which ends with the first corrupt cell. -/
def collectBalances :
    List (Bytes × Bytes) → Except BalanceError (List (ActorId × ResourceId × Amount))
  | [] => .ok []
  | (key, value) :: rows =>
    match parseBalanceKey key with
    | none => collectBalances rows
    | some (actor, resource) => do
      let amount ← decodeCell actor resource (some value)
      let out ← collectBalances rows
      return (actor, resource, amount) :: out

def BalanceView.scanAll : ViewM BalanceError (List (ActorId × ResourceId × Amount)) := do
  let rows ← ExceptT.adapt BalanceError.storage (scanWithConn balanceKeyPrefix)
  Fallible.ofExcept (collectBalances rows)

def actorPrefix (actor : ActorId) : Bytes := balanceKeyPrefix ++ beBytes 8 actor.toNat

def cellRow (cell : ActorId × ResourceId × Amount) : Bytes × Bytes :=
  (balanceKey cell.1 cell.2.1, beBytes balanceValueLen cell.2.2.toNat)

/-- The rows of the table under the prefix of the balances are these cells. -/
def HoldsBalances (table : Table) (balances : ActorId → ResourceId → Option Amount) : Prop :=
  ∀ key value, balanceKeyPrefix <+: key → (lookup table key = some value ↔
    ∃ actor resource amount, balances actor resource = some amount ∧
      (key, value) = cellRow (actor, resource, amount))

def CellBefore (cell later : ActorId × ResourceId × Amount) : Prop :=
  cell.1 < later.1 ∨ cell.1 = later.1 ∧ cell.2.1 < later.2.1

theorem keyBefore_iff_beValue {key other : Bytes} (hlength : key.length = other.length) :
    KeyBefore key other ↔ beValue key < beValue other := by
  induction key generalizing other with
  | nil =>
    rw [List.length_eq_zero_iff.mp hlength.symm]
    simp [KeyBefore]
  | cons byte rest ih =>
    cases other with
    | nil => cases hlength
    | cons next tail =>
      have htail : rest.length = tail.length := Nat.succ.inj hlength
      have hrest := beValue_lt rest
      have hnext := beValue_lt tail
      have hsplit : ∀ byte rest, beValue (byte :: rest) =
          256 ^ rest.length * byte.toNat + beValue rest := by
        intro byte rest
        rw [← List.singleton_append, beValue_append]
        simp [beValue]
      rw [hsplit, hsplit, KeyBefore, ← htail]
      rw [← htail] at hnext
      rcases compare_cons byte next rest tail with ⟨hlt, heq⟩ | ⟨rfl, heq⟩ | ⟨hgt, heq⟩
      · have hle := Nat.mul_le_mul_left (256 ^ rest.length) (UInt8.lt_iff_toNat_lt.mp hlt)
        rw [Nat.mul_succ] at hle
        exact iff_of_true heq (by omega)
      · rw [heq]
        exact (ih htail).trans (Nat.add_lt_add_iff_left).symm
      · have hle := Nat.mul_le_mul_left (256 ^ rest.length) (UInt8.lt_iff_toNat_lt.mp hgt)
        rw [Nat.mul_succ] at hle
        exact iff_of_false (by simp [heq]) (by omega)

theorem balanceKeyPrefix_length : balanceKeyPrefix.length = 2 := by decide +kernel

theorem balanceKey_length (actor : ActorId) (resource : ResourceId) :
    (balanceKey actor resource).length = balanceKeyLen := by
  simp only [balanceKey, List.length_append, beBytes_length, balanceKeyPrefix_length]
  rfl

theorem cellBefore_of_keyBefore {cell later : ActorId × ResourceId × Amount}
    (hbefore : KeyBefore (cellRow cell).1 (cellRow later).1) : CellBefore cell later := by
  have hvalue : ∀ (actor : ActorId) (resource : ResourceId), beValue (balanceKey actor resource) =
      2 ^ 64 * (2 ^ 64 * beValue balanceKeyPrefix + actor.toNat) + resource.toNat := by
    intro actor resource
    rw [balanceKey, beValue_append, beValue_append, beBytes_length, beBytes_length,
      beValue_beBytes 8 _ actor.toNat_lt, beValue_beBytes 8 _ resource.toNat_lt]
    norm_num
  have hother := later.2.1.toNat_lt
  unfold cellRow at hbefore
  rw [keyBefore_iff_beValue (by rw [balanceKey_length, balanceKey_length]), hvalue, hvalue]
    at hbefore
  unfold CellBefore
  rw [UInt64.lt_iff_toNat_lt, UInt64.lt_iff_toNat_lt, ← UInt64.toNat_inj]
  omega

theorem parseBalanceKey_balanceKey (actor : ActorId) (resource : ResourceId) :
    parseBalanceKey (balanceKey actor resource) = some (actor, resource) := by
  have hactor : (((balanceKey actor resource).drop 2).take 8) = beBytes 8 actor.toNat := by
    rw [balanceKey, List.append_assoc, List.drop_left' balanceKeyPrefix_length,
      List.take_left' (beBytes_length 8 _)]
  have hresource : (((balanceKey actor resource).drop 10).take 8) = beBytes 8 resource.toNat := by
    rw [balanceKey, List.drop_left' (by
      rw [List.length_append, beBytes_length, balanceKeyPrefix_length])]
    exact List.take_of_length_le (beBytes_length 8 _).le
  have hstem : (balanceKey actor resource).take 2 = balanceKeyPrefix := by
    rw [balanceKey, List.append_assoc]
    exact List.take_left' balanceKeyPrefix_length
  rw [parseBalanceKey, if_neg (not_not.mpr (balanceKey_length actor resource)),
    if_neg (not_not.mpr hstem), hactor, hresource, beValue_beBytes 8 _ actor.toNat_lt,
    beValue_beBytes 8 _ resource.toNat_lt, UInt64.ofNat_toNat, UInt64.ofNat_toNat]

theorem collectBalances_cells (cells : List (ActorId × ResourceId × Amount)) :
    collectBalances (cells.map cellRow) = .ok cells := by
  induction cells with
  | nil => rfl
  | cons cell cells ih =>
    have hcell : decodeCell cell.1 cell.2.1 (some (cellRow cell).2) = .ok cell.2.2 := by
      have hamount := beValue_beBytes balanceValueLen _ cell.2.2.isLt
      simp only [cellRow, decodeCell, beBytes_length, if_true, hamount, BitVec.ofNat_toNat,
        BitVec.setWidth_eq]
    rw [List.map_cons, collectBalances]
    simp only [cellRow, parseBalanceKey_balanceKey] at hcell ih ⊢
    rw [hcell, ih]
    rfl

theorem actorPrefix_iff (actor other : ActorId) (resource : ResourceId) :
    actorPrefix actor <+: balanceKey other resource ↔ other = actor := by
  constructor
  · intro hstem
    have heq := List.prefix_iff_eq_take.mp hstem
    rw [balanceKey, ← actorPrefix, List.take_left' (by simp [actorPrefix]), actorPrefix,
      actorPrefix, List.append_cancel_left_eq] at heq
    exact UInt64.toNat_inj.mp (beBytes_injective_of_lt other.toNat_lt actor.toNat_lt heq.symm)
  · rintro rfl
    exact List.prefix_append _ _

section Cells

variable {table : Table} {balances : ActorId → ResourceId → Option Amount}
  (hholds : HoldsBalances table balances)
include hholds

theorem scanRows_cells {stem : Bytes} (hstem : balanceKeyPrefix <+: stem) :
    ∃ cells : List (ActorId × ResourceId × Amount),
      scanRows table stem = cells.map cellRow ∧ cells.Pairwise CellBefore ∧
      ∀ actor resource amount, (actor, resource, amount) ∈ cells ↔
        stem <+: balanceKey actor resource ∧ balances actor resource = some amount := by
  have hlists := scanRows_lists table stem
  have hrows : scanRows table stem ∈ Set.range (List.map cellRow) := by
    rw [Set.range_list_map]
    rintro ⟨key, value⟩ hrow
    obtain ⟨hkey, hfound⟩ := (hlists.entries key value).mp hrow
    obtain ⟨actor, resource, amount, _, heq⟩ := (hholds key value (hstem.trans hkey)).mp hfound
    exact ⟨_, heq.symm⟩
  obtain ⟨cells, hcells⟩ := hrows
  have hinjective : Function.Injective cellRow := by
    intro cell other heq
    have hcollected := collectBalances_cells [cell]
    rw [List.map_singleton, heq, ← List.map_singleton, collectBalances_cells] at hcollected
    simpa using hcollected.symm
  rw [← hcells] at hlists
  refine ⟨cells, hcells.symm, (List.pairwise_map.mp hlists.sorted).imp cellBefore_of_keyBefore, ?_⟩
  intro actor resource amount
  rw [← List.mem_map_of_injective hinjective, cellRow, hlists.entries]
  refine and_congr_right fun hkey => ?_
  rw [hholds _ _ (hstem.trans hkey)]
  constructor
  · rintro ⟨_, _, _, hbalance, heq⟩
    cases hinjective heq
    exact hbalance
  · exact fun hbalance => ⟨actor, resource, amount, hbalance, rfl⟩

end Cells

/-- A scan lists exactly the keys with the given first bytes, in their order; so scans of
the balances list the cells of one actor by resource, and all cells once. -/
theorem prefix_scans_exact (table : Table) :
    (∀ stem, ∃ rows, (scanWithConn stem ⟨table, [], []⟩).1 = .ok rows ∧
      AtomicMap.Lists KeyBefore (lookup table) {key | stem <+: key} rows) ∧
    ∀ balances, HoldsBalances table balances →
      (∀ actor, ∃ cells : List (ActorId × ResourceId × Amount),
        (scanWithConn (actorPrefix actor) ⟨table, [], []⟩).1 = .ok (cells.map cellRow) ∧
        cells.Pairwise (fun cell later => cell.2.1 < later.2.1) ∧
        ∀ other resource amount, (other, resource, amount) ∈ cells ↔
          other = actor ∧ balances other resource = some amount) ∧
      ∃ cells, (BalanceView.scanAll ⟨table, [], []⟩).1 = .ok cells ∧
        cells.Pairwise CellBefore ∧
        ∀ actor resource amount, (actor, resource, amount) ∈ cells ↔
          balances actor resource = some amount := by
  refine ⟨fun stem => ⟨_, rfl, scanRows_lists table stem⟩, fun balances hholds => ⟨?_, ?_⟩⟩
  · intro actor
    obtain ⟨cells, hrows, hsorted, hmem⟩ := scanRows_cells hholds
      (List.prefix_append balanceKeyPrefix (beBytes 8 actor.toNat))
    have hactor : ∀ other resource amount, (other, resource, amount) ∈ cells ↔
        other = actor ∧ balances other resource = some amount := fun other resource amount =>
      (hmem other resource amount).trans (and_congr_left' (actorPrefix_iff actor other resource))
    refine ⟨cells, congrArg Except.ok hrows, ?_, hactor⟩
    refine hsorted.imp_of_mem fun hcell hlater hbefore => ?_
    rcases hbefore with hlt | ⟨_, hlt⟩
    · rw [((hactor _ _ _).mp hcell).1, ((hactor _ _ _).mp hlater).1] at hlt
      exact absurd hlt (UInt64.lt_irrefl _)
    · exact hlt
  · obtain ⟨cells, hrows, hsorted, hmem⟩ := scanRows_cells hholds
      (List.prefix_rfl : balanceKeyPrefix <+: balanceKeyPrefix)
    refine ⟨cells, ?_, hsorted, fun actor resource amount => ?_⟩
    · exact (congrArg collectBalances hrows).trans (collectBalances_cells cells)
    · rw [hmem, and_iff_right]
      rw [balanceKey, List.append_assoc]
      exact List.prefix_append _ _

theorem prefix_scans_exact_five :
    ∃ cells, (BalanceView.scanAll ⟨(∅ : Table).insert (balanceKey 7 1)
      (beBytes balanceValueLen 5), [], []⟩).1 = .ok cells ∧ (7, 1, 5) ∈ cells := by
  obtain ⟨cells, hcells, _, hmem⟩ := ((prefix_scans_exact ((∅ : Table).insert (balanceKey 7 1)
    (beBytes balanceValueLen 5))).2
    (fun actor resource => if actor = 7 ∧ resource = 1 then some 5 else none) (by
      intro key value _
      rw [lookup_insert, Function.update_apply]
      simp only [lookup, Std.ExtTreeMap.getElem?_empty, Option.ite_none_right_eq_some,
        Option.some.injEq, cellRow, Prod.mk.injEq]
      constructor
      · rintro ⟨rfl, rfl⟩
        exact ⟨7, 1, 5, ⟨⟨rfl, rfl⟩, rfl⟩, rfl, rfl⟩
      · rintro ⟨_, _, _, ⟨⟨rfl, rfl⟩, rfl⟩, rfl, rfl⟩
        exact ⟨rfl, rfl⟩)).2
  exact ⟨cells, hcells, (hmem 7 1 5).mpr rfl⟩

end Indexing

end Canon
