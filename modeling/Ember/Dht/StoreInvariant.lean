import Ember.Dht.StoreCases

/-! The rule for store invariants. Every operation is one of a few moves: a record stored, a sweep,
a change to republish stamps or to settings; what each move keeps, every run keeps. -/
namespace Ember.Dht
open Bytes Table List AList

def DhtRecord.bare (record : DhtRecord) : DhtRecord :=
  { record with lastRepublished := 0, republishDue := false }

def SameBodies (l l' : List DhtRecord) : Prop := l'.map DhtRecord.bare = l.map DhtRecord.bare

variable {l' l : List DhtRecord}

theorem SameBodies.mem (same : SameBodies l l') (r : DhtRecord) (member : r ∈ l') : ∃ old ∈ l, old.bare = r.bare := by
  have inside := mem_map_of_mem (f := DhtRecord.bare) member
  rw [same] at inside
  exact mem_map.1 inside

theorem SameBodies.map {α : Type} (same : SameBodies l l') (f : DhtRecord → α)
    (blind : ∀ r, f r.bare = f r) : l'.map f = l.map f := by
  have through := congrArg (List.map f) same
  simpa [Function.comp_def,blind] using through

theorem SameBodies.replace (before after : List DhtRecord) (r r' : DhtRecord) (same : r'.bare = r.bare) :
    SameBodies (before++r :: after) (before++r' :: after) := by
  simp [SameBodies,same]

namespace DhtStore

inductive Restamps (s : DhtStore) : DhtStore → Prop where
  | refl : Restamps s s
  | memo {t u : DhtStore} : Restamps s t → Memo t u → Restamps s u
  | records {t : DhtStore} (k : Key) (l l' : List DhtRecord) : Restamps s t → t.entries.lookup k = some l →
      SameBodies l l' → Restamps s (t.setEntries (t.entries.insert k l'))
variable (m : Moment) (s : DhtStore) (k : Key) (request : Republish)

theorem Restamps.trans {s t u : DhtStore} (first : Restamps s t) (second : Restamps t u) : Restamps s u := by
  induction second with
  | refl => exact first
  | memo _ same ih => exact ih.memo same
  | records k l l' _ found same ih => exact ih.records k l l' found same

section
variable {s t : DhtStore} (restamps : Restamps s t)
include restamps

theorem Restamps.sameBodies (k : Key) : SameBodies (s.records k) (t.records k) := by
  induction restamps with
  | refl => rfl
  | memo _ same ih => rwa [same.records]
  | @records t k' l l' _ found same ih =>
    by_cases here : k = k'
    · subst here
      have before : t.records k = l := held_of_lookup _ _ _ found
      have after : (t.setEntries (t.entries.insert k l')).records k = l' := by simp [DhtStore.records]
      rw [after]
      subst before
      exact Eq.trans same ih
    have other : (t.setEntries (t.entries.insert k' l')).records k = t.records k := by
      simp [DhtStore.records,held_insert_ne _ _ _ here]
    rwa [other]

theorem Restamps.settings : t.settings = s.settings := by
  induction restamps with
  | refl => rfl
  | memo _ same ih => rw [same.settings,ih]
  | records k l l' _ _ _ ih => exact ih

theorem Restamps.mem_iff {k : Key} : k ∈ t.entries ↔ k ∈ s.entries := by
  induction restamps with
  | refl => rfl
  | memo _ same ih => rw [same.entries,ih]
  | @records t k' l l' _ found _ ih =>
    rw [← ih,setEntries_entries,mem_insert]
    constructor
    · rintro (rfl | old)
      · exact lookup_isSome.1 (by simp [found])
      · exact old
    · exact .inr

theorem Restamps.keyCount : t.keyCount = s.keyCount := by
  have same : t.entries.keys.Perm s.entries.keys :=
    (perm_ext_iff_of_nodup t.entries.keys_nodup s.entries.keys_nodup).2 (fun k => restamps.mem_iff)
  simpa [DhtStore.keyCount,AList.keys,List.keys] using same.length_eq

end

private theorem republishRecords_sameBodies (skip idx : Nat) (out : Batch)
    (records : List DhtRecord) : SameBodies records (republishRecords m request skip idx out records).1 := by
  induction records generalizing idx out with
  | nil => rfl
  | cons record rest ih =>
    unfold republishRecords
    dsimp only
    unfold SameBodies
    split
    · rw [map_cons,map_cons,ih]
    split
    · rfl
    split
    · rw [map_cons,ih]
      rfl
    · rw [map_cons,map_cons,ih]

private theorem republishKeys_restamps (keys : List Key) (skip : Nat)
    (s : DhtStore) (out : Batch) : Restamps s (republishKeys m request keys skip s out).1 := by
  induction keys generalizing skip s out with
  | nil => exact Restamps.refl.memo rfl
  | cons k rest ih =>
    unfold republishKeys
    split
    · exact ih 0 s out
    rename_i records found
    have first := Restamps.refl.records k records _ found
      (republishRecords_sameBodies m request skip 0 out records)
    dsimp only
    split
    · exact first.memo rfl
    · exact first.trans (ih ..)

theorem takeRepublishBatch_restamps : Restamps s (s.takeRepublishBatch m request).1 :=
  republishKeys_restamps m request _ _ s []

theorem lookup_of_records (occupied : s.records k ≠ []) : s.entries.lookup k = some (s.records k) := by
  refine lookup_of_mem s.entries k ?_
  by_contra absent
  have nothing : s.records k = [] := by simp [records,held,lookup_eq_none.2 absent]
  exact occupied nothing

theorem markRepublishDue_restamps {signature : Signature} : Restamps s (s.markRepublishDue k signature) := by
  unfold markRepublishDue
  dsimp only
  split
  · exact .refl
  rename_i record after split
  have whole := takeWhile_append_dropWhile (p := fun r => r.signature != signature) (l := s.records k)
  rw [split] at whole
  refine Restamps.refl.records k (s.records k) _ (lookup_of_records s k ?_) ?_
  · rw [← whole]
    simp
  have same := SameBodies.replace ((s.records k).takeWhile fun r => r.signature != signature) after
    record { record with republishDue := true } rfl
  rwa [whole] at same

/-- What every move must keep; `own` are the keys that may be made the local publisher's. -/
structure Invariant (env : Env) (own : PublisherKey → Prop) (P : DhtStore → Prop) : Prop where
  memo : ∀ s t, Memo s t → P s → P t
  store : ∀ m s key data signature ip checked, P s →
    P (s.storeRecord env m key data signature ip checked).1
  sweep : ∀ m s keep, P s → P (s.sweep m keep).1
  restamps : ∀ s t, Restamps s t → P s → P t
  localId : ∀ s localId, P s → P (s.setLocalId localId)
  localKey : ∀ s p, own p → P s → P (s.setLocalPublisherKey p)
  shares : ∀ s filtered, P s → P (s.setResponsibilityFiltered filtered)
  scale : ∀ s scale, P s → P (s.setScale scale)

variable {env : Env} {own : PublisherKey → Prop} {P : DhtStore → Prop}
variable (m : Moment) (s : DhtStore) (keep : DhtRecord → Bool)

theorem restoreRecord_cases (env : Env) (m : Moment) (s : DhtStore) (record : PersistedRecord) :
    (Memo s (s.restoreRecord env m record).1 ∧ (s.restoreRecord env m record).1.evictions = s.evictions) ∨
      ∃ aged key p createdAt, Memo s aged ∧ aged.evictions = s.evictions ∧
        signedIdentityFromRecordData record.data = some (key,p,createdAt) ∧
        s.restoreRecord env m record = aged.storeRecord env m key record.data record.signature none true := by
  unfold DhtStore.restoreRecord
  dsimp only
  split
  · exact .inl ⟨rfl,rfl⟩
  split
  · exact .inl ⟨rfl,rfl⟩
  rename_i key p createdAt identity
  split_ifs
  · exact .inl ⟨rfl,rfl⟩
  · exact .inl ⟨rfl,rfl⟩
  · exact .inl ⟨rfl,rfl⟩
  · exact .inl ⟨rfl,rfl⟩
  · exact .inl ⟨rfl,rfl⟩
  · exact .inr ⟨s.noteAge (m.unix-createdAt),key,p,createdAt,rfl,rfl,identity,rfl⟩

section
variable (kept : Invariant env own P)
include kept

private theorem Invariant.restoreRecord (m : Moment) (s : DhtStore)
    (record : PersistedRecord) (holds : P s) : P (s.restoreRecord env m record).1 := by
  rcases restoreRecord_cases env m s record with ⟨same,_⟩ | ⟨aged,key,p,createdAt,same,_,_,result⟩
  · exact kept.memo s _ same holds
  · rw [result]
    exact kept.store _ _ _ _ _ _ _ (kept.memo s aged same holds)

private theorem Invariant.restoreAll (records : List PersistedRecord)
    (clock : Nat → Moment) (s : DhtStore) (holds : P s) : P (s.restoreAll env records clock).1 := by
  induction records generalizing clock s with
  | nil => exact holds
  | cons record rest ih => exact ih _ _ (kept.restoreRecord _ s record holds)

theorem Invariant.apply {op : StoreOp env}
    (allowed : ∀ p, op = .setLocalPublisherKey p → own p) {s : DhtStore} (holds : P s) : P (op.apply s) := by
  cases op with
  | storeAttributed m key data signature ip => exact kept.store m s key data signature ip false holds
  | restoreVerified clock records => exact kept.restoreAll records.records clock s holds
  | expire m => exact kept.sweep m s _ holds
  | dropPublisherFiles m p files =>
    unfold StoreOp.apply DhtStore.dropPublisherFiles
    dsimp only
    split
    · exact holds
    · exact kept.sweep m s _ holds
  | setLocalId localId => exact kept.localId s localId holds
  | setLocalPublisherKey p => exact kept.localKey s p (allowed p rfl) holds
  | setResponsibilityFiltered filtered => exact kept.shares s filtered holds
  | setScale scale => exact kept.scale s scale holds
  | takeRepublishBatch m request => exact kept.restamps s _ (takeRepublishBatch_restamps m s request) holds
  | markRepublishDue key signature => exact kept.restamps s _ (markRepublishDue_restamps s key) holds
  | createdAtAdmissible m data createdAt => exact kept.memo s _ (admitCreatedAt_memo s ..).1 holds

theorem Invariant.run (ops : List (StoreOp env))
    (allowed : ∀ p, .setLocalPublisherKey p ∈ ops → own p) (s : DhtStore) (holds : P s) : P (s.run ops) := by
  induction ops generalizing s with
  | nil => exact holds
  | cons op rest ih =>
    refine ih (fun p member => allowed p (mem_cons_of_mem _ member)) _ (kept.apply ?_ holds)
    rintro p rfl
    exact allowed p mem_cons_self

end

theorem sweep_records (k : Key) : (s.sweep m keep).1.records k = (s.records k).filter keep := by
  unfold DhtStore.records held
  simp only [sweep,release_entries,setEntries_entries,lookup_retain]
  cases s.entries.lookup k with
  | none => rfl
  | some l =>
    by_cases none : (l.filter keep).isEmpty
    · rw [Option.bind_some,if_pos none]
      exact (List.isEmpty_iff.1 none).symm
    · rw [Option.bind_some,if_neg none]
      rfl

end DhtStore
end Ember.Dht
