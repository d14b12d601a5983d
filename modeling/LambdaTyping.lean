import LambdaTyping.Lambda.Checker
import LambdaTyping.Subtyping.View
import LambdaTyping.Table.Edit
import LambdaTyping.Table.Platform
import LambdaTyping.Proofs.Hierarchy.BreadthFirst
import LambdaTyping.Proofs.Hierarchy.Closure
import LambdaTyping.Proofs.Hierarchy.Forgetting
import LambdaTyping.Proofs.Hierarchy.Growth
import LambdaTyping.Proofs.Hierarchy.Instantiation
import LambdaTyping.Proofs.Hierarchy.Reachability
import LambdaTyping.Proofs.Lambda.Checker
import LambdaTyping.Proofs.Lambda.Completion
import LambdaTyping.Proofs.Lambda.Exactness
import LambdaTyping.Proofs.Lambda.Execution
import LambdaTyping.Proofs.Lambda.Forgetting
import LambdaTyping.Proofs.Lambda.Growth
import LambdaTyping.Proofs.Lambda.Guard
import LambdaTyping.Proofs.Lambda.Labels
import LambdaTyping.Proofs.Lambda.Memoization
import LambdaTyping.Proofs.Lambda.Parameters
import LambdaTyping.Proofs.Lambda.Returns
import LambdaTyping.Proofs.Lambda.Termination
import LambdaTyping.Proofs.Method.CacheRuns
import LambdaTyping.Proofs.Method.Candidates
import LambdaTyping.Proofs.Method.Erasure
import LambdaTyping.Proofs.Method.Growth
import LambdaTyping.Proofs.Method.Overriding
import LambdaTyping.Proofs.Method.Substitution
import LambdaTyping.Proofs.Query
import LambdaTyping.Proofs.Subtyping.Answers
import LambdaTyping.Proofs.Subtyping.Basic
import LambdaTyping.Proofs.Subtyping.BoundOrder
import LambdaTyping.Proofs.Subtyping.ClassView
import LambdaTyping.Proofs.Subtyping.Compatibility
import LambdaTyping.Proofs.Subtyping.Derivation
import LambdaTyping.Proofs.Subtyping.Erasure
import LambdaTyping.Proofs.Subtyping.Forgetting
import LambdaTyping.Proofs.Subtyping.Growth
import LambdaTyping.Proofs.Subtyping.Inclusion
import LambdaTyping.Proofs.Subtyping.MemberOrder
import LambdaTyping.Proofs.Subtyping.Merging
import LambdaTyping.Proofs.Subtyping.Regular
import LambdaTyping.Proofs.Subtyping.Rules
import LambdaTyping.Proofs.Subtyping.SuperFree
import LambdaTyping.Proofs.Subtyping.Termination
import LambdaTyping.Proofs.Subtyping.Top
import LambdaTyping.Proofs.Subtyping.Transitivity
import LambdaTyping.Proofs.Subtyping.Upcast
import LambdaTyping.Proofs.Subtyping.View
import LambdaTyping.Proofs.Subtyping.ViewOrder
import LambdaTyping.Proofs.Subtyping.Weight
import LambdaTyping.Proofs.Table.Editing
import LambdaTyping.Proofs.Table.Growth
import LambdaTyping.Proofs.Table.Indexing
import LambdaTyping.Proofs.Table.Naming
import LambdaTyping.Proofs.Table.Reordering
import LambdaTyping.Proofs.Table.Scoping
import LambdaTyping.Proofs.Target.Bounds
import LambdaTyping.Proofs.Target.FunctionType
import LambdaTyping.Proofs.Target.Grounding
import LambdaTyping.Proofs.Target.Growth
import LambdaTyping.Proofs.Target.Intersection
import LambdaTyping.Proofs.Target.NormalForm
import LambdaTyping.Proofs.Target.Raw
import LambdaTyping.Proofs.Target.Reordering
import LambdaTyping.Proofs.Target.Reporting
import LambdaTyping.Proofs.Target.Resolution
import LambdaTyping.Proofs.Target.Scope
import LambdaTyping.Proofs.Type.Display
import LambdaTyping.Proofs.Type.Erasure
import LambdaTyping.Proofs.Type.Identity
import LambdaTyping.Proofs.Type.Intersection
import LambdaTyping.Proofs.Type.NormalForm
import LambdaTyping.Proofs.Type.Presentable
import LambdaTyping.Proofs.Type.Substitution
import LambdaTyping.Proofs.Type.Subterms
import LambdaTyping.Proofs.Type.Symmetry
