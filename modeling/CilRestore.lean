import CilRestore.Bytes.Changes
import CilRestore.Bytes.Hex
import CilRestore.Host.Runtime
import CilRestore.Main
import CilRestore.Session
import CilRestore.Wording
import CilRestore.Proofs.Body.Kept
import CilRestore.Proofs.Body.Located
import CilRestore.Proofs.Code.Immediates
import CilRestore.Proofs.Image.Bounds
import CilRestore.Proofs.Image.LongerSection
import CilRestore.Proofs.Image.Repatching
import CilRestore.Proofs.Image.WrittenBack
import CilRestore.Proofs.Layout.Inserted
import CilRestore.Proofs.Layout.LeastWidening
import CilRestore.Proofs.Layout.Redecoded
import CilRestore.Proofs.Metadata.MethodCells
import CilRestore.Proofs.Metadata.Streams
import CilRestore.Proofs.Metadata.UserStrings
import CilRestore.Proofs.Module.History
import CilRestore.Proofs.Module.Indexed
import CilRestore.Proofs.Module.Signatures
import CilRestore.Proofs.Restorer.Independence
import CilRestore.Proofs.Restorer.ReadBack
import CilRestore.Proofs.Restorer.Requests
import CilRestore.Proofs.Restorer.Results
import CilRestore.Proofs.Restorer.Writing
import CilRestore.Proofs.StackDepth.Exact
