import CScript.Inference.PrefixCache
import CScript.Lib.Float

/-!
# Decoding in batches

Connections decode one token at a time. A scheduler thread takes their steps from a channel, runs
those for one model together and sends each connection its rows and logits back.
-/
namespace CScript.Inference

open Lib

variable {α C : Type}

/-! ## One connection alone -/

/-- The index of the first greatest logit. -/
def argmax (logits : List F32) : TokenId :=
  let best := logits.zipIdx.foldl
    (fun (best : Nat × F32) vi => if vi.1.gt best.2 then (vi.2, vi.1) else best) (0, .inf true)
  UInt32.ofNat best.1

/-- A loaded model with its decode step for many sequences, and its tokenizer's end of text. -/
structure ModelEntry (α : Type) where
  model : LanguageModel α (List F32)
  forwardStepBatch : List (KvCache α) → List TokenId → List (KvCache α) × List (List F32)
  eosTokenId : Option TokenId

/-- The default of `forward_step_batch`: one sequence after the other. -/
def LanguageModel.stepEach (model : LanguageModel α (List F32)) (caches : List (KvCache α))
    (newTokens : List TokenId) : List (KvCache α) × List (List F32) :=
  let steps := (caches.zip newTokens).map fun (cache, tok) => model.forwardStep cache [tok]
  (steps.map Prod.fst, steps.map Prod.snd)

/-- The decode step for many sequences is that of each. -/
def ModelEntry.Batches (entry : ModelEntry α) : Prop :=
  ∀ caches newTokens, caches.length = newTokens.length →
    entry.forwardStepBatch caches newTokens = entry.model.stepEach caches newTokens

inductive DoneReason where
  | length
  | stop
  deriving DecidableEq

/-- The decode loop where nothing is scheduled, with this many rounds left. -/
def decodeLoop (entry : ModelEntry α) :
    Nat → KvCache α → List F32 → List TokenId × DoneReason
  | 0, _, _ => ([], .length)
  | left + 1, cache, logits =>
      let next := argmax logits
      if some next = entry.eosTokenId then ([], .stop)
      else if left = 0 then ([next], .length)
      else
        let (cache, logits) := entry.model.forwardStep cache [next]
        let (generatedIds, doneReason) := decodeLoop entry left cache logits
        (next :: generatedIds, doneReason)

/-- A request after its prefill. -/
structure Prefilled (α : Type) where
  modelName : String
  numPredict : Nat
  cache : KvCache α
  logits : List F32

/-- What the request is answered without the scheduler. -/
def Prefilled.direct (models : String → ModelEntry α) (req : Prefilled α) :
    List TokenId × DoneReason :=
  decodeLoop (models req.modelName) req.numPredict req.cache req.logits

/-! ## The scheduler -/

structure DecodeJob (C α : Type) where
  model : ModelEntry α
  modelKey : String
  token : TokenId
  cache : KvCache α
  reply : C

/-- What is sent to a connection. -/
structure DecodeReply (C α : Type) where
  reply : C
  cache : KvCache α
  logits : List F32

/-- Where a connection stands in its decode loop, with the rounds left and the tokens so far. -/
inductive Phase (α : Type) where
  | deciding (left : Nat) (cache : KvCache α) (logits : List F32) (generatedIds : List TokenId)
  | waiting (left : Nat) (generatedIds : List TokenId)
  | answered (left : Nat) (cache : KvCache α) (logits : List F32) (generatedIds : List TokenId)
  | finished (doneReason : DoneReason) (generatedIds : List TokenId)
  | disconnected

/-- Where the scheduler thread stands: blocked on the channel, filling a batch, or running the
groups of one and sending the replies of the group before. -/
inductive Scheduler (C α : Type) where
  | idle
  | collecting (batch : List (DecodeJob C α))
  | running (groups : List (String × List (DecodeJob C α))) (replies : List (DecodeReply C α))

structure Decoding (C α : Type) where
  phases : C → Phase α
  queue : List (DecodeJob C α)
  scheduler : Scheduler C α

def addToGroup (job : DecodeJob C α) :
    List (String × List (DecodeJob C α)) → List (String × List (DecodeJob C α))
  | [] => [(job.modelKey, [job])]
  | (key, group) :: rest =>
      if key = job.modelKey then (key, group ++ [job]) :: rest
      else (key, group) :: addToGroup job rest

def groupJobs (jobs : List (DecodeJob C α)) : List (String × List (DecodeJob C α)) :=
  jobs.foldl (fun groups job => addToGroup job groups) []

/-- The call for one group, and the replies. -/
def runGroup (group : List (DecodeJob C α)) : Option (List (DecodeReply C α)) := do
  let first ← group.head?
  let (caches, allLogits) :=
    first.model.forwardStepBatch (group.map (·.cache)) (group.map (·.token))
  return ((caches.zip allLogits).zip (group.map (·.reply))).map fun ((cache, logits), reply) =>
    ⟨reply, cache, logits⟩

/-- The steps of the connections, and those of the scheduler thread: the first job of a batch, one
more job, the end of the collecting, a group that the map gives, a reply, the end of the batch. -/
inductive Move (C : Type) where
  | decide (c : C)
  | receive (c : C)
  | disconnect (c : C)
  | recvFirst
  | recvNext
  | dispatch
  | runGroup (i : Nat)
  | reply
  | endBatch

def Move.isScheduler : Move C → Bool
  | .decide _ | .receive _ | .disconnect _ => false
  | _ => true

variable [DecidableEq C]

/-- One round of the decode loop, up to the scheduler. -/
def Decoding.round (models : String → ModelEntry α) (modelName : String) (s : Decoding C α) (c : C) :
    Nat → KvCache α → List F32 → List TokenId → Decoding C α
  | 0, _, _, generatedIds =>
      { s with phases := Function.update s.phases c (.finished .length generatedIds) }
  | left + 1, cache, logits, generatedIds =>
      let next := argmax logits
      if some next = (models modelName).eosTokenId then
        { s with phases := Function.update s.phases c (.finished .stop generatedIds) }
      else if left = 0 then
        { s with phases := Function.update s.phases c (.finished .length (generatedIds ++ [next])) }
      else
        { s with
          phases := Function.update s.phases c (.waiting left (generatedIds ++ [next]))
          queue := s.queue ++ [⟨models modelName, modelName, next, cache, c⟩] }

/-- A reply reaches a connection that waits for it. -/
def Phase.deliver (cache : KvCache α) (logits : List F32) : Phase α → Phase α
  | .waiting left generatedIds => .answered left cache logits generatedIds
  | phase => phase

def Decoding.step (models : String → ModelEntry α) (requests : C → Prefilled α)
    (maxBatchSize : Nat) (s : Decoding C α) : Move C → Option (Decoding C α)
  | .decide c => match s.phases c with
      | .deciding left cache logits generatedIds =>
          some (s.round models (requests c).modelName c left cache logits generatedIds)
      | _ => none
  | .receive c => match s.phases c with
      | .answered left cache logits generatedIds => some { s with
          phases := Function.update s.phases c (.deciding left cache logits generatedIds) }
      | _ => none
  | .disconnect c => match s.phases c with
      | .deciding _ _ _ _ => some { s with phases := Function.update s.phases c .disconnected }
      | _ => none
  | .recvFirst => match s.scheduler, s.queue with
      | .idle, first :: queue => some { s with queue, scheduler := .collecting [first] }
      | _, _ => none
  | .recvNext => match s.scheduler, s.queue with
      | .collecting batch, job :: queue =>
          if batch.length < maxBatchSize then
            some { s with queue, scheduler := .collecting (batch ++ [job]) }
          else none
      | _, _ => none
  | .dispatch => match s.scheduler with
      | .collecting batch => some { s with scheduler := .running (groupJobs batch) [] }
      | _ => none
  | .runGroup i => match s.scheduler with
      | .running groups [] => do
          let (_, group) ← groups[i]?
          let replies ← runGroup group
          return { s with scheduler := .running (groups.eraseIdx i) replies }
      | _ => none
  | .reply => match s.scheduler with
      | .running groups (r :: replies) => some { s with
          phases := Function.update s.phases r.reply ((s.phases r.reply).deliver r.cache r.logits)
          scheduler := .running groups replies }
      | _ => none
  | .endBatch => match s.scheduler with
      | .running [] [] => some { s with scheduler := .idle }
      | _ => none

def Decoding.start (requests : C → Prefilled α) : Decoding C α where
  phases c := .deciding (requests c).numPredict (requests c).cache (requests c).logits []
  queue := []
  scheduler := .idle

end CScript.Inference
