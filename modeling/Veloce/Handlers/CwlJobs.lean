import Veloce.Collections.Pieces
import Veloce.Handlers.Desk

/-! The jobs of a CWL workflow: one for each step, which waits for the jobs of the steps
whose output it reads. -/

namespace Veloce

open Collections

section Reading

variable {step : CwlStep} {stepId name source : String} {steps : List (String × CwlStep)}

end Reading

section Jobs

variable {site : SubmissionSite} {principal : AuthenticatedPrincipal} {userId resolved workingDirectory : String}
variable {baseId : JobId}

/-- What the handler makes of the steps: a name and an id for each. -/
def stepIds (steps : List (String × CwlStep)) (baseId : JobId) : List (String × JobId) :=
  steps.zipIdx.map fun ((stepId, _), offset) => (stepId, baseId + offset)

def CwlStep.deps (step : CwlStep) (stepId : String) (steps : List (String × CwlStep)) (baseId : JobId) : List JobId :=
  (step.dependsOn stepId steps).filterMap (HashMap.ofList (stepIds steps baseId)).get?

def CwlStep.job (step : CwlStep) (site : SubmissionSite) (workflow : CwlWorkflow) (resolved workingDirectory : String)
    (baseId : JobId) (stepId : String) (offset : Nat) : Submission :=
  let deps := step.deps stepId workflow.steps baseId
  let msg : SubmitMessage := {
    jobName := some stepId
    jobComment := workflow.name
    binary := step.run
    args := step.args.getD []
    reqNodes := step.reqNodes.getD 1
    reqCores := step.reqCores.getD 1
    reqMemory := step.reqMemory.getD 1024
    userId := resolved
    workingDirectory := workingDirectory
    imageUri := step.imageUri }
  msg.record site (baseId + offset) resolved (site.getContainer (step.imageUri.getD step.run)) false none (some deps)
    (some (deps.map fun target => s!"AfterOk:{target}"))

def CwlWorkflow.jobs (workflow : CwlWorkflow) (site : SubmissionSite) (resolved workingDirectory : String) (baseId : JobId) :
    List Submission :=
  workflow.steps.zipIdx.map fun ((stepId, step), offset) =>
    step.job site workflow resolved workingDirectory baseId stepId offset

end Jobs

end Veloce
