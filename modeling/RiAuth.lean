import RiAuth.Audit.Noninterference
import RiAuth.Background.Releases
import RiAuth.Directory.PageCookie
import RiAuth.Identity.FactorReplay
import RiAuth.Identity.Lockout
import RiAuth.Identity.PasswordReuse
import RiAuth.Keyring.Coverage
import RiAuth.Ldap.Filters
import RiAuth.Management.MutationOnce
import RiAuth.Management.UserPages
import RiAuth.Migration.Ancestors
import RiAuth.Migration.Links
import RiAuth.Offboarding.Attention
import RiAuth.OneUse.AtMostOnce
import RiAuth.OneUse.Dpop
import RiAuth.Operations.ChunkedRoundTrip
import RiAuth.Operations.StreamAuth
import RiAuth.Policy.Attenuation
import RiAuth.Proxy.Headers
import RiAuth.Radius.Conversation
import RiAuth.Radius.Duplicates
import RiAuth.Rates.Agreement
import RiAuth.Saml.LogoutRuns
import RiAuth.Scim.Listing
import RiAuth.Scim.PatchedAddresses
import RiAuth.Signals.Dispatch
import RiAuth.Store.Backends
import RiAuth.Store.DueRuns
import RiAuth.Store.Mounts
import RiAuth.Store.Prepared
import RiAuth.Store.Sweeps
import RiAuth.VerifiedAccess.Messages
import RiAuth.Workflow.Completion
import RiAuth.Workflow.Disclosure
import RiAuth.Workflow.GuestRequests
import RiAuth.Workflow.Order
