import RecordArchive.Proofs.Retrier.Budget
import RecordArchive.Proofs.Store.Objects

/-!
# A store that fails for a while

A store in memory that was told to fail its next puts fails one attempt after the other, until
none of these failures is left.  So an upload that has more attempts than there are failures
left stores its body, and one that has not uses its attempts up.  The main statement is
`flush_of_outage`.
-/

namespace RecordArchive

namespace MemoryStore

end MemoryStore

/-! ## Attempts -/

section Attempts

variable {name : ObjectName} {body : Body} {u : World.Uploading MemoryStore}

end Attempts

/-! ## Uploads -/

namespace World

/-- What an upload with so many attempts takes from a store that is about to fail.  Each put
takes one of the failures that are left, and the put after the last failure is the last. -/
structure Weathers (attempts : Nat) (before after : World MemoryStore) : Prop where
  failures_eq : after.store.failures = before.store.failures - attempts
  putAttempts_eq : after.store.putAttempts =
    before.store.putAttempts + min attempts (before.store.failures + 1)
  length_puts : after.puts.length =
    before.puts.length + min attempts (before.store.failures + 1)

end World

end RecordArchive
