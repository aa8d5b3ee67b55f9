import Cnmsql.Binlog.Archiving

namespace Cnmsql.Binlog

open ObjectStore

def Answered (c : Call) (r : Answer c) (c' : Call) (r' : Answer c') : Prop := c=c' ∧ HEq r r'

/-- What an answer teaches: one case for each answer that changes what is known. -/
inductive Lesson (u : String) (know : Know) : (c : Call) → Answer c → Know → Prop
  | clock (t : Time) : Lesson u know .now t { know with clock := t }
  | writable (b : Bool) : Lesson u know (.ask .writable) (.ok b) { know with writable := some b }
  | generation (g : Int) (ok : Bool) : Lesson u know (.ask .authority) (g,ok)
      { know with generation := if ok then some g else none, authority := none }
  | authority (a : Option Authority) :
      Lesson u know (.ask .forkAuthority) (.ok a) { know with authority := a }
  | noAuthority (e : String) :
      Lesson u know (.ask .forkAuthority) (.error e) { know with authority := none }
  | hashed (n sum : String) (size : Nat) : Lesson u know (.ask (.hashFile n)) (.ok (sum,size))
      { know with hashed := (n, sum, size)::know.hashed }
  | scanned (n : String) (scan : ScanResult) : Lesson u know (.ask (.scan n)) (.ok scan)
      { know with scanned := (n, scan)::know.scanned }
  | manifest (n : String) (metadata : BinlogMetadata) : Lesson u know (.ask (.manifest n)) (.ok metadata)
      { know with archived := (n, metadata)::know.archived }
  | view (v : Option (String × String)) :
      Lesson u know (.ask .primary) v { know with views := v::know.views }
  | listed (logs : List BinaryLog) : Lesson u know .listBinaryLogs (.ok logs) (know.list logs)
  | flushed : Lesson u know .flushLogs (.ok ()) { know with flushing := some know.clock }
  | sought (n : String) (found : Bool) : Lesson u know (.manifestExists n) (.ok found)
      { know with absent := if found then none else some n }
  | uploaded (n : String) (size : Nat) : Lesson u know (.upload n size) (.ok ())
      { know with uploaded := n::know.uploaded }
  | described (n : String) (metadata : BinlogMetadata) : Lesson u know (.putManifest n metadata) (.ok ())
      { know with archived := (n, metadata)::know.archived, absent := none }
  | undescribed (n : String) (metadata : BinlogMetadata) (e : String) :
      Lesson u know (.putManifest n metadata) (.error e) { know with absent := none }
  | read (index : Option ArchiveIndex) (etag : Option Nat) : Lesson u know .getIndex (.ok (index,etag))
      { know.seeIndex u index with found := some (index, etag) }
  | wrote (index : ArchiveIndex) (etag : Option Nat) : Lesson u know (.putIndexIf index etag) (.ok true)
      { know.seeIndex u (some index) with found := none, authority := none }
  | tried (index : ArchiveIndex) (etag : Option Nat) (r : Except String Bool) :
      Lesson u know (.putIndexIf index etag) r { know with found := none, authority := none }
  | deferred (n : String) : Lesson u know (.note (.deferred n)) () { know with deferred := some n }
  | through (t : Time) : Lesson u know (.note (.through t)) () { know with through := t }
  | nothing (c : Call) (r : Answer c) : Lesson u know c r know

theorem lesson_learn (u : String) (know : Know) {c : Call} (r : Answer c) :
    Lesson u know c r (know.learn u c r) := by
  unfold Know.learn
  split
  all_goals first | constructor | skip
  unfold Know.learnReply
  split
  all_goals constructor

theorem learn_absent {u n : String} {know know' : Know} {c : Call} {r : Answer c}
    (hlesson : Lesson u know c r know') (h : know'.absent=some n) :
    know.absent=some n ∨ Answered c r (.manifestExists n) (.ok false) := by
  cases hlesson with
  | sought n' found =>
    cases found with
    | true => cases h
    | false =>
      cases h
      exact .inr ⟨rfl,HEq.rfl⟩
  | described n' metadata => cases h
  | undescribed n' metadata e => cases h
  | _ => exact .inl h

theorem learn_putManifest_absent {u n : String} {know : Know} {metadata : BinlogMetadata}
    (r : Answer (.putManifest n metadata)) :
    (know.learn u (.putManifest n metadata) r).absent=none := by
  cases r with
  | error e => rfl
  | ok _ => rfl

end Cnmsql.Binlog
