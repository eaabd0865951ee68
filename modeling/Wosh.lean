import Wosh.SshCore.HostKey
import Wosh.SshCore.Credentials
import Wosh.Listener.ToClient
import Wosh.Listener.ToSshd
import Wosh.Listener.Grace
import Wosh.Listener.Orphans
import Wosh.Listener.Admission
import Wosh.Listener.Refusal
import Wosh.Client.Redial
import Wosh.Client.Outbound
import Wosh.Client.Inbound
import Wosh.Client.Liveness
import Wosh.Client.Wakeups
import Wosh.Client.Finality
import Wosh.Transfer.Download
import Wosh.Transfer.Upload
import Wosh.Listener.Revival
import Wosh.Listener.Observe
import Wosh.Tunnel.Codec
import Wosh.SshCore.Input
import Wosh.SshCore.Teardown
import Wosh.SshCore.Gates
import Wosh.SshCore.Exports
import Wosh.Transfer.Bulk
import Wosh.Transfer.Opening
import Wosh.Tunnel.Retention
import Wosh.Client.Budget
import Wosh.Listener.Tombstones
import Wosh.Transfer.Overwrite
import Wosh.Client.Applying
import Wosh.Listener.Applying
import Wosh.Ends.Emission
import Wosh.Ends.Control
import Wosh.Client.Streams
import Wosh.Client.Narrow
import Wosh.Listener.Streams
import Wosh.Ends.Link
import Wosh.Ends.Delivery
import Wosh.Ends.Settled
import Wosh.Connstring.Agreement
import Wosh.Transfer.Anchor
import Wosh.Transfer.Patience
import Wosh.Transfer.Connection
import Wosh.Sftp.Correlator
import Wosh.Transfer.Permits
import Wosh.Transfer.Listing
import Wosh.Staging.Committed
import Wosh.Client.Probe
import Wosh.Hostkey.Glob
import Wosh.Hostkey.Grammar
import Wosh.WebauthnSsh.Assertion
import Wosh.WebauthnSsh.Recovery
import Wosh.WebauthnSsh.KeyLine
import Wosh.Sftp.Reassembly
import Wosh.Sftp.Names
import Wosh.Connstring.PageToken
import Wosh.Page.Pump
import Wosh.Page.HostKeys
import Wosh.Page.Consent
import Wosh.Page.Supersede
import Wosh.Page.Turns
import Wosh.Page.PinKey
import Wosh.Identity.Store
import Wosh.Identity.Blob
import Wosh.Identity.File
import Wosh.Identity.Pairing
import Wosh.Passkey.Store
import Wosh.Page.Scrollback
import Wosh.Page.Sessions
import Wosh.Page.AuthorizedKeys
import Wosh.Lib.Broker
