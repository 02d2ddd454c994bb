import Mishkan.Application.KnowledgeAuthority
import Mishkan.Artifacts.Chronology
import Mishkan.Artifacts.Resumable
import Mishkan.Artifacts.Revisions
import Mishkan.Config.Provenance
import Mishkan.Context.Fidelity
import Mishkan.Edits.Faults
import Mishkan.Edits.GitSettlement
import Mishkan.Edits.Hunks
import Mishkan.Environment.DescriptorValidation
import Mishkan.Execution.Admission
import Mishkan.Execution.Chunking
import Mishkan.Execution.Cursor
import Mishkan.Execution.Settlement
import Mishkan.Knowledge.Dispatch
import Mishkan.Mcp.Progress
import Mishkan.Missions.Eligibility
import Mishkan.Missions.EvidenceFlow
import Mishkan.Missions.TeamEvidence
import Mishkan.Organization.Competence
import Mishkan.Persistence.Accounting
import Mishkan.Persistence.Cancellation
import Mishkan.Persistence.EventGaps
import Mishkan.Persistence.RunStates
import Mishkan.Policy.Monotone
import Mishkan.Policy.Ordering
import Mishkan.Policy.Specificity
import Mishkan.Runtime.PredicateMeaning
import Mishkan.Scheduling.Finished
import Mishkan.Skills.LearnedVersions
import Mishkan.Skills.ProgressiveLoading
import Mishkan.Tools.AtMostOnce
import Mishkan.Tools.Collisions
import Mishkan.Tools.EffectEvidence
import Mishkan.Tools.FileReadLines
import Mishkan.Tools.ListingPages
import Mishkan.Tools.Refusals
import Mishkan.Tools.Slots
import Mishkan.Workers.CertificateAuthority
import Mishkan.Workers.Claims
import Mishkan.Workers.Deliveries
import Mishkan.Workers.Executors
import Mishkan.Persistence.Recovery
import Mishkan.Tools.Snapshots
