import JarPruning.ClassFile.Annotation
import JarPruning.Bytecode.Neutral
import JarPruning.Bytecode.Stub
import JarPruning.Bytecode.Bootstrap
import JarPruning.Member.GraceSet
import JarPruning.Member.Tracker
import JarPruning.Metadata.Removal
import JarPruning.ClassFile.Script
import JarPruning.Pass.Basic
import JarPruning.Config.Settings
import JarPruning.Archive.Naming
import JarPruning.Run.FileTree
import JarPruning.Run.Job
import JarPruning.Config.Document
import JarPruning.Run.Basic
import JarPruning.Main
import JarPruning.Proofs.Pass.Closed
import JarPruning.Proofs.ClassFile.Inverse
import JarPruning.Proofs.Metadata.Roundtrip
import JarPruning.Proofs.Metadata.Records
import JarPruning.Proofs.Pass.Parts
import JarPruning.Proofs.Pass.Mirrored
import JarPruning.Proofs.Pass.Properties
import JarPruning.Proofs.Pass.Budgets
import JarPruning.Proofs.Pass.Idempotent
import JarPruning.Proofs.Pass.Written
import JarPruning.Proofs.Walk.Rewritten
import JarPruning.Proofs.Archive.History
import JarPruning.Proofs.Pass.Monotone
import JarPruning.Proofs.Pass.Still
import JarPruning.Proofs.Metadata.Trimming
import JarPruning.Proofs.Pass.PropertyRemoval
import JarPruning.Proofs.Pass.HandedOn
import JarPruning.Proofs.Pass.Order
import JarPruning.Proofs.Metadata.FieldEdits
import JarPruning.Proofs.Metadata.Septets
import JarPruning.Proofs.Bytecode.StubBody
import JarPruning.Proofs.ClassFile.Nesting
import JarPruning.Proofs.ClassFile.Lockstep
import JarPruning.Proofs.Member.Additions
import JarPruning.Proofs.Member.Lifetimes
import JarPruning.Proofs.Member.Grammar
import JarPruning.Proofs.Pass.Companions
import JarPruning.Proofs.Metadata.Signature
import JarPruning.Proofs.Metadata.StringTable
import JarPruning.Proofs.Config.Policy
