import OnceInit.Cell.Hex
import OnceInit.Machine.Step
import OnceInit.PoisonLock
import OnceInit.Proofs.Waiting
import OnceInit.Proofs.Reach
import OnceInit.Proofs.Refine
import OnceInit.Proofs.ExactlyOnce
import OnceInit.Proofs.Preemption
import OnceInit.Proofs.Mutex
import OnceInit.Proofs.Discipline
import OnceInit.Proofs.Account
import OnceInit.Proofs.Wakeup
import OnceInit.Proofs.Cover
import OnceInit.Proofs.Brackets
import OnceInit.Proofs.Initializers
import OnceInit.Proofs.Smooth
import OnceInit.Proofs.Bout
import OnceInit.Proofs.HandOver
import OnceInit.Proofs.Standing
import OnceInit.Proofs.Undisturbed
import OnceInit.Proofs.SelfDeadlock
import OnceInit.Proofs.FatalFailures
import OnceInit.Proofs.Relay
import OnceInit.Proofs.Hooks
import OnceInit.Proofs.Canonical
import OnceInit.Proofs.Stretches
import OnceInit.Proofs.Log
import OnceInit.Proofs.WakeOrder
import OnceInit.Proofs.Tokens
import OnceInit.Proofs.Orderly
import OnceInit.Proofs.Poisoning
import OnceInit.Proofs.Quiescence
import OnceInit.Proofs.Course
import OnceInit.Proofs.Verdict
import OnceInit.Proofs.Fields
import OnceInit.Proofs.Decision
import OnceInit.Proofs.Observers
import OnceInit.Proofs.Imprint
import OnceInit.Proofs.Diagnostics
import OnceInit.Proofs.Allotment
