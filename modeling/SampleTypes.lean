import SampleTypes.Main
import SampleTypes.Proofs.Build.Bodies
import SampleTypes.Proofs.Build.Failures
import SampleTypes.Proofs.Build.Labels
import SampleTypes.Proofs.Build.Legible
import SampleTypes.Proofs.Build.Masking
import SampleTypes.Proofs.Build.Order
import SampleTypes.Proofs.Build.Rebuilding
import SampleTypes.Proofs.Build.Reload
import SampleTypes.Proofs.Build.Seeds
import SampleTypes.Proofs.CommandLine.EntryPoints
import SampleTypes.Proofs.Graph.Pointers
import SampleTypes.Proofs.Graph.Unfolding
import SampleTypes.Proofs.Inference.Composition
import SampleTypes.Proofs.Inference.Nodes
import SampleTypes.Proofs.Inference.Policies
import SampleTypes.Proofs.Options.Spelling
import SampleTypes.Proofs.Recovery
import SampleTypes.Proofs.Synthesis.FirstOccurrences
import SampleTypes.Proofs.Synthesis.Numbers
import SampleTypes.Proofs.Synthesis.Reuse
