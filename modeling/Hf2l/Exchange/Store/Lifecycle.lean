import Hf2l.Exchange.Store.Rows

/-!
# `Hf2l.Exchange.Store.Lifecycle`: what the commands do to the tables

The Python service and the Go port change the ledger in the same few ways. This module has
these changes as functions on `Ledger`: opening and purging a record, stopping a record and
charging its attachments for deletion, opening a transfer attempt, and re-arming the
cleanup of one. The changes of references and acquisitions are functions on `Registry`.

Stopping a record is where the two services differ. `ReleaseRule` holds the tests by which
they differ; `ReleaseRule.release` is the loop they share.
-/

set_option autoImplicit false

namespace Hf2l.Exchange

open Lib

/-- The record stopped in a terminal state. -/
def Record.stopped (r : Record) (state : RecordState) : Record :=
  { r with state := state, generation := r.generation + 1 }

/-- The attempt behind the cleanup barrier, under no lease. -/
def TransferAttempt.rearmed (a : TransferAttempt) (now : Time) : TransferAttempt :=
  { a with
      state := .cleanup
      operation := .cleanup
      nextAttempt := max now a.grantExpiresAt
      token := none
      leaseUntil := none }

/-- The attachment charged again until its objects are deleted. -/
def Blob.recharged (b : Blob) : Blob := { b with pendingDeletion := true, state := .cleanup }

/-- The attachment whose objects are deleted. -/
def Blob.discharged (b : Blob) : Blob := { b with pendingDeletion := false, state := .cleaned }

namespace Ledger

section
variable (l : Ledger)

/-- Add a draft with its attachments and count it. -/
def insertRecord (r : Record) (bs : List Blob) : Ledger :=
  { l with
      records := l.records ++ [r]
      blobs := l.blobs ++ bs
      space := { l.space with
        recordCount := l.space.recordCount + 1
        metadataBytes := l.space.metadataBytes + r.metadataBytes
        allocated := l.space.allocated + r.declaredBytes } }

/-- Delete a record with its attachments and their attempts, and count it no more. -/
def removeRecord (r : Record) : Ledger :=
  { l with
      records := l.records.filter (·.id ≠ r.id)
      blobs := l.blobs.filter (·.recordId ≠ r.id)
      attempts := l.attempts.filter fun a => a.blobId ∉ (l.blobsOf r.id).map (·.id)
      space := { l.space with
        recordCount := l.space.recordCount - 1
        metadataBytes := l.space.metadataBytes - r.metadataBytes } }

/-- `UPDATE records SET shared = flag WHERE kind = kind`. -/
def share (kind : String) (flag : Bool) : Ledger :=
  { l with records := l.records.map fun r => if r.kind = kind then {
    r with shared := flag } else r }

/-- Update the attempts of one attachment in place. -/
def mapAttempts (blobId : Id) (f : TransferAttempt → TransferAttempt) : Ledger :=
  { l with attempts := l.attempts.map fun a => if a.blobId = blobId then f a else a }

/-- The attempt that owns an upload of the attachment still wanted: of several the one that
was created last (`_active`, `active`). -/
def active (blobId : Id) : Option TransferAttempt :=
  (l.attempts.filter fun a => a.blobId = blobId ∧ a.operation = .upload ∧ a.state.active).foldl
    (fun best a => match best with
      | none => some a
      | some b => if b.createdAt < a.createdAt ∨ (b.createdAt = a.createdAt ∧ b.id < a.id)
          then some a else some b)
    none

/-- The attempt that `_new_attempt` inserts. It owns a private storage key. -/
def newAttempt (env : Env) (b : Blob) (now : Time) : TransferAttempt where
  id := l.fresh 0
  blobId := b.id
  operation := .upload
  objectKey := ⟨env.storageRoot, l.space.id, b.id, l.fresh 0⟩
  state := .initiating
  token := some (.lease (l.fresh 1))
  leaseUntil := some (now + env.leaseSeconds)
  nextAttempt := now
  mutationTokens := [.lease (l.fresh 1)]
  createdAt := now
  updatedAt := now

/-- Insert the attempt `a` of attachment `b`. -/
def openAttempt (b : Blob) (a : TransferAttempt) : Ledger :=
  ((l.insertAttempt a).putBlob { b with state := .initiating }).draw 2

/-- Put an attempt back behind the cleanup barrier. If its record is stopped and its
attachment no longer charged, charge it again. -/
def rearm (r : Record) (b : Blob) (a : TransferAttempt) (now : Time) : Ledger :=
  if r.state.terminal = true ∧ b.pendingDeletion = false then
    ((l.putAttempt (a.rearmed now)).putBlob b.recharged).addReclaiming b.size
  else l.putAttempt (a.rearmed now)

end

end Ledger

namespace Registry

/-- A reference that did not exist. -/
def createReference (g : Registry) (name : String) (target : Id) : Registry :=
  { g with references := g.references ++ [⟨name, target, 1, 0⟩] }

/-- `reference.record_id, reference.generation = target, generation + 1`. -/
def moveReference (g : Registry) (reference : Reference) (target : Id) : Registry :=
  let moved := { reference with recordId := target, generation := reference.generation + 1 }
  { g with references := Table.put Reference.name moved g.references }

/-- Expire the acquisitions of the reference that are still marked active, raise its fence
and add an acquisition under the new fence. -/
def grant (g : Registry) (reference : Reference) (id holder : Id) (leaseUntil createdAt : Time)
    (inputs : List Id) : Registry :=
  let raised := { reference with fence := reference.fence + 1 }
  let expired := g.coordinations.map fun c =>
    if c.referenceName = reference.name ∧ c.state = .active then { c with state := .expired } else c
  let granted : Coordination :=
    { id, referenceName := reference.name, expectedGeneration := reference.generation, holder,
      fence := reference.fence + 1, state := .active, leaseUntil, createdAt }
  { references := Table.put Reference.name raised g.references
    coordinations := expired ++ [granted]
    inputs := g.inputs ++ inputs.map fun recordId => ⟨id, recordId⟩ }

def putCoordination (g : Registry) (c : Coordination) : Registry :=
  { g with coordinations := Table.put Coordination.id c g.coordinations }

end Registry

/-- The tests by which the two services differ when they stop a record. -/
structure ReleaseRule where
  /-- The attachment needs no work. -/
  done : Blob → Bool
  /-- Nothing of the attachment is left to delete, given its attempts. -/
  absent : List TransferAttempt → Bool
  /-- The attempt needs no cleanup. -/
  settled : TransferAttempt → Bool
  /-- The state of an attachment that is charged for deletion. -/
  label : TransferState → TransferState

namespace ReleaseRule

/-- `Service.release`. -/
def python : ReleaseRule where
  done b := b.state = .cleaned || b.pendingDeletion
  absent attempts := attempts.isEmpty
  settled a := a.state = .cleaned
  label state := state

/-- `ReleaseRecord`: an attachment whose attempts are all cleaned is discarded too, and a
mutation marker outweighs a `cleaned` label. -/
def go : ReleaseRule where
  done b := b.pendingDeletion
  absent attempts := attempts.all fun a => a.state = .cleaned && a.mutationTokens.isEmpty
  settled a := a.state = .cleaned && a.mutationTokens.isEmpty
  label state := if state = .cleaned then .cleanup else state

variable (rule : ReleaseRule)

/-- The attempt keeps its lease: cleanup waits for any call in flight. -/
def releaseAttempt (now : Time) (b : Blob) (a : TransferAttempt) : TransferAttempt :=
  if rule.settled a then a
  else { a with
    state := .cleanup
    operation := .cleanup
    nextAttempt := max (max now a.grantExpiresAt) b.grantExpiresAt }

/-- One pass of the loop over the attachments of a stopped record. -/
def releaseBlob (now : Time) (l : Ledger) (b : Blob) : Ledger :=
  if rule.done b then l
  else if rule.absent (l.attemptsOf b.id) then l.putBlob { b with state := .cleaned }
  else
    ((l.putBlob { b with
        pendingDeletion := true
        state := rule.label b.state
        expiresAt := max now b.grantExpiresAt }).addReclaiming b.size).mapAttempts b.id
      (rule.releaseAttempt now b)

/-- Stop a record: its bytes are no longer allocated, and each attachment is discarded or
charged until its objects are deleted. -/
def release (l : Ledger) (r : Record) (state : RecordState) (now : Time) : Ledger :=
  (l.blobsOf r.id).foldl (rule.releaseBlob now)
    ((l.putRecord (r.stopped state)).addAllocated (-r.declaredBytes))

/-- Write the cleaned attempt `a` of attachment `b`. The last attempt to be cleaned ends the
charge of an attachment that waits for deletion. -/
def cleanAttempt (l : Ledger) (b : Blob) (a : TransferAttempt) : Ledger :=
  if ((l.putAttempt a).attemptsOf b.id).all rule.settled = true ∧ b.pendingDeletion = true then
    ((l.putAttempt a).putBlob b.discharged).addReclaiming (-b.size)
  else l.putAttempt a

end ReleaseRule

end Hf2l.Exchange
